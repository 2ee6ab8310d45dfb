import LightAgent.HttpData.Analysis
import LightAgent.HttpData.ParseHeaders
import LightAgent.Epoll

/-!
# HttpData::handleRead

The `do { .. } while (false)` block is a chain of stages: `ok` falls through to the
next one, `error` is a `break`. After it come the write, the reset and, for input that
is still buffered, the handler again. The recursion is bounded by what is buffered and
unread (`handleRead_eq`): every further round has used up the CR of a request line.
-/
namespace LightAgent

open Library

/-! ### The stages -/

/-- `error_ = true; handleError(fd_, 400, msg); break;` -/
def badRequest (s : Conn) (msg : Bytes) : Except Conn Conn :=
  .error (handleError (s.setHttp { s.http with error_ := true }) 400 msg)

/-- `int read_num = readn(..)`: the sum of the bytes read narrows to `int`. -/
def ReadnResult.read_num (result : ReadnResult) : Int :=
  match result.ret with
  | some n => toInt n
  | none => -1

/-- `readn` and the tests on what it returned. -/
def readStage (s : Conn) : Except Conn Conn :=
  let result := readn s.http.inBuffer_ s.wire.reads
  let s := { s with wire := { s.wire with reads := result.rest } }
  let s := s.setHttp { s.http with inBuffer_ := result.inBuffer }
  -- `LOG << "Request: " << inBuffer_;` stands here: where it does not return is in `BlockReturns`
  if s.http.connectionState_ = .disconnecting then
    .error (s.setHttp { s.http with inBuffer_ := [] })
  else if result.read_num < 0 then badRequest s (bytes "Bad Request")
  -- The peer has closed. What it sent before is still parsed, and answered.
  else if result.zero then
    let s := s.setHttp { s.http with connectionState_ := .disconnecting }
    if result.read_num = 0 then .error s else .ok s
  else .ok s

def parseUriStage (s : Conn) : Except Conn Conn :=
  if s.http.state_ = .parseUri then
    match s.http.parseURI with
    | (h, .again) => .error (s.setHttp h)
    -- After a bad request line the buffer is logged and cleared, after a bad header it is not.
    | (h, .error) => badRequest (s.setHttp { h with inBuffer_ := [] }) (bytes "Bad Request")
    | (h, .success) => .ok (s.setHttp { h with state_ := .parseHeaders })
  else .ok s

def parseHeadersStage (w : World) (s : Conn) : Except Conn Conn :=
  if s.http.state_ = .parseHeaders then
    match s.http.parseHeaders w.outside with
    | (h, .again) => .error (s.setHttp h)
    -- The exception leaves `handleRead` too: `BlockReturns` does not hold.
    | (h, .thrown) => .error (s.setHttp h)
    | (h, .error) => badRequest (s.setHttp h) (bytes "Bad Request")
    | (h, .success) =>
      if h.method_ = .post then .ok (s.setHttp { h with state_ := .recvBody })
      else .ok (s.setHttp { h with state_ := .analysis })
  else .ok s

def recvBodyStage (s : Conn) : Except Conn Conn :=
  if s.http.state_ = .recvBody then
    match s.http.getContentLength with
    | none => badRequest s (bytes "Bad Request: Lack of argument (Content-length)")
    | some content_length =>
      -- An incomplete body is waited for, with no limit on its length.
      if toInt s.http.inBuffer_.length < content_length then .error s
      else .ok (s.setHttp { s.http with state_ := .analysis })
  else .ok s

/-- The block up to the test for `STATE_ANALYSIS`, once the bytes are read. -/
def parseStages (w : World) (s : Conn) : Except Conn Conn :=
  (parseUriStage s).bind fun s => (parseHeadersStage w s).bind recvBodyStage

/-- The block up to the test for `STATE_ANALYSIS`. -/
def toAnalysis (w : World) (s : Conn) : Except Conn Conn := (readStage s).bind (parseStages w)

theorem bind_eq_ok {s' : Conn} {r : Except Conn Conn} {stage : Conn → Except Conn Conn} :
    r.bind stage = .ok s' ↔ ∃ s, r = .ok s ∧ stage s = .ok s' := by
  cases r with
  | error s =>
    constructor
    · intro done; cases done
    · rintro ⟨_, other, _⟩; cases other
  | ok s =>
    constructor
    · exact fun done => ⟨s, rfl, done⟩
    · rintro ⟨_, same, done⟩; cases same; exact done

theorem bind_eq_error {s' : Conn} {r : Except Conn Conn} {stage : Conn → Except Conn Conn} :
    r.bind stage = .error s' ↔ r = .error s' ∨ ∃ s, r = .ok s ∧ stage s = .error s' := by
  cases r with
  | error s =>
    constructor
    · exact .inl
    · rintro (same | ⟨_, other, _⟩)
      · exact same
      · cases other
  | ok s =>
    constructor
    · exact fun stops => .inr ⟨s, rfl, stops⟩
    · rintro (other | ⟨_, same, stops⟩)
      · cases other
      · cases same; exact stops

/-- A request comes through the parsing where it comes through each stage. -/
theorem parseStages_eq_ok {w : World} {s s' : Conn} : parseStages w s = .ok s' ↔
    ∃ s₁ s₂, parseUriStage s = .ok s₁ ∧ parseHeadersStage w s₁ = .ok s₂ ∧
      recvBodyStage s₂ = .ok s' := by
  unfold parseStages
  simp only [bind_eq_ok]
  constructor
  · rintro ⟨s₁, line, s₂, block, body⟩
    exact ⟨s₁, s₂, line, block, body⟩
  · rintro ⟨s₁, s₂, line, block, body⟩
    exact ⟨s₁, line, s₂, block, body⟩

/-- The call of `analysisRequest` and what becomes of its result. -/
def analyse (w : World) (s : Conn) : Conn :=
  match analysisRequest w s with
  | (s, .success) => s.setHttp { s.http with state_ := .finish }
  | (s, .error) => s.setHttp { s.http with error_ := true }

/-- The last test of the block. -/
def endBlock (w : World) : Except Conn Conn → Conn
  | .error s => s
  | .ok s => if s.http.state_ = .analysis then analyse w s else s

/-- The whole block. -/
def readBlock (w : World) (s : Conn) : Conn := endBlock w (toAnalysis w s)

/-! ### The handlers -/

/-- What `handleWrite` makes of the result of `writen`; a negative one is an error. -/
def afterWrite (s : Conn) (out : WritenResult) : Conn :=
  let events_ := if out.ret.isNone then 0 else s.http.channel_.events_
  let events_ := if out.sbuff ≠ [] then events_ ||| EPOLLOUT else events_
  { s with
    http := { s.http with
      outBuffer_ := out.sbuff
      error_ := s.http.error_ || out.ret.isNone
      channel_ := { s.http.channel_ with events_ := events_ } }
    wire := { s.wire with writes := out.rest, sent := s.wire.sent ++ out.accepted } }

/-- `HttpData::handleWrite` -/
def handleWrite (s : Conn) : Conn :=
  if !s.http.error_ ∧ s.http.connectionState_ ≠ .disconnected then
    afterWrite s (writen s.http.outBuffer_ s.wire.writes)
  else s

/-- `HttpData::reset` -/
def reset (s : Conn) : Conn :=
  seperateTimer (s.setHttp { s.http with
    fileName_ := [], nowReadPos_ := 0, state_ := .parseUri, hState_ := .start,
    headers_ := .empty })

/-- The write after the block. -/
def flush (s : Conn) : Conn :=
  if s.http.error_ then s else if s.http.outBuffer_ ≠ [] then handleWrite s else s

@[elab_as_elim]
theorem flush_cases {motive : Conn → Prop} (s : Conn) (stays : motive s)
    (writes : s.http.error_ = false → motive (handleWrite s)) : motive (flush s) := by
  unfold flush
  split
  next => exact stays
  next alive =>
    split
    next => exact writes (Bool.eq_false_iff.mpr alive)
    next => exact stays

theorem flush_empty {s : Conn} (empty : s.http.outBuffer_ = []) : flush s = s := by
  unfold flush
  split
  · rfl
  · exact if_neg fun some => some empty

/-- The request of this round is answered and the handler did not fail. -/
def Conn.finished (s : Conn) : Prop := s.http.error_ = false ∧ s.http.state_ = .finish

instance (s : Conn) : Decidable s.finished := inferInstanceAs (Decidable (_ ∧ _))

/-- `handleRead()` is called again for what is buffered. -/
def Conn.continues (s : Conn) : Prop :=
  s.http.inBuffer_ ≠ [] ∧ s.http.connectionState_ ≠ .disconnecting

instance (s : Conn) : Decidable s.continues := inferInstanceAs (Decidable (_ ∧ _))

/-- The end of a round without a finished request. -/
def rearm (s : Conn) : Conn :=
  if s.http.error_ = false ∧ s.http.connectionState_ ≠ .disconnected then
    s.setEvents (s.http.channel_.events_ ||| EPOLLIN)
  else s

/-- At most the events asked for are others. -/
theorem rearm_events (s : Conn) : ∃ events, rearm s = s.setEvents events := by
  unfold rearm
  split
  · exact ⟨_, rfl⟩
  · exact ⟨s.http.channel_.events_, rfl⟩

/-- `HttpData::handleRead`, at most so many activations deep. -/
def handleReadFrom (w : World) : Nat → Conn → Conn
  | 0, s => s
  | depth + 1, s =>
    let s := flush (readBlock w s)
    if s.finished then
      let s := reset s
      -- On this way out EPOLLIN is not asked for.
      if s.continues then handleReadFrom w depth s else s
    else rearm s

def ReadResult.size : ReadResult → Nat
  | .data _ rest => rest.length + 1
  | _ => 0

/-- Bytes buffered and bytes still to be read. -/
def Conn.input (s : Conn) : Nat :=
  s.http.inBuffer_.length + (s.wire.reads.map ReadResult.size).sum

/-- `HttpData::handleRead`. The bound on the depth is never met: `handleRead_eq`. -/
def handleRead (w : World) (s : Conn) : Conn := handleReadFrom w (s.input + 2) s

end LightAgent

import LightAgent.HttpData.Rounds
import LightAgent.HttpData.HandleConn

/-!
# Connections that are alike to their peer

Parsing and answering do not look at the channel, the timer link or the poller, and
while the socket takes everything it does not matter in which pieces. Connections that
differ in these things only are `Alike`, and every handler keeps them so.
-/
namespace LightAgent

open Library

/-- The same members, but for the channel and the timer link. -/
def HttpData.attach (h : HttpData) (channel : Channel) (timer : Option TimerId) : HttpData :=
  { h with channel_ := channel, timer_ := timer }

/-- Nothing waits in the socket, and the socket takes all that is written. -/
structure Quiet (wire : Wire) : Prop where
  reads : wire.reads = []
  writes : Unblocked wire.writes

/-- Nothing that decides what is parsed and answered differs, nor what went out. -/
structure Alike (s t : Conn) : Prop where
  http : ∃ channel timer, t.http = s.http.attach channel timer
  sent : t.wire.sent = s.wire.sent
  calls : t.wire.calls = s.wire.calls
  served : t.wire.served = s.wire.served
  left : Quiet s.wire
  right : Quiet t.wire

namespace Alike

theorem refl {s : Conn} (quiet : Quiet s.wire) : Alike s s :=
  ⟨⟨s.http.channel_, s.http.timer_, rfl⟩, rfl, rfl, rfl, quiet, quiet⟩

theorem symm {s t : Conn} (alike : Alike s t) : Alike t s := by
  obtain ⟨⟨channel, timer, http⟩, sent, calls, served, left, right⟩ := alike
  refine ⟨⟨s.http.channel_, s.http.timer_, ?_⟩, sent.symm, calls.symm, served.symm, right, left⟩
  rw [http]; rfl

theorem trans {s t u : Conn} (first : Alike s t) (second : Alike t u) : Alike s u := by
  obtain ⟨⟨channel, timer, http⟩, sent, calls, served, left, _⟩ := first
  obtain ⟨⟨channel', timer', http'⟩, sent', calls', served', _, right⟩ := second
  refine ⟨⟨channel', timer', ?_⟩, sent'.trans sent, calls'.trans calls, served'.trans served,
    left, right⟩
  rw [http', http]; rfl

/-- The same change of the members keeps connections alike. -/
theorem setHttp {s t : Conn} (alike : Alike s t) {h k : HttpData} {channel : Channel}
    {timer : Option TimerId} (same : k = h.attach channel timer) :
    Alike (s.setHttp h) (t.setHttp k) :=
  ⟨⟨channel, timer, same⟩, alike.sent, alike.calls, alike.served, alike.left, alike.right⟩

theorem writeRaw {s t : Conn} (alike : Alike s t) (buff : Bytes) :
    Alike (s.writeRaw buff) (t.writeRaw buff) := by
  obtain ⟨rest, free, out⟩ := writenRaw_unblocked buff alike.left.writes
  obtain ⟨rest', free', out'⟩ := writenRaw_unblocked buff alike.right.writes
  unfold Conn.writeRaw
  rw [out, out', alike.sent]
  exact ⟨alike.http, rfl, alike.calls, alike.served, ⟨alike.left.reads, free⟩,
    ⟨alike.right.reads, free'⟩⟩

theorem handleError {s t : Conn} (alike : Alike s t) (err_num : Nat) (msg : Bytes) :
    Alike (handleError s err_num msg) (handleError t err_num msg) :=
  (alike.writeRaw _).writeRaw _

end Alike

/-! ### The stages -/

/-- Two outcomes of a stage: both go on or both break, with connections alike. -/
inductive AlikeOutcome : Except Conn Conn → Except Conn Conn → Prop
  | ok {s t : Conn} : Alike s t → AlikeOutcome (.ok s) (.ok t)
  | error {s t : Conn} : Alike s t → AlikeOutcome (.error s) (.error t)

theorem AlikeOutcome.bind {r r' : Except Conn Conn} (first : AlikeOutcome r r')
    {stage : Conn → Except Conn Conn}
    (next : ∀ s t, Alike s t → AlikeOutcome (stage s) (stage t)) :
    AlikeOutcome (r.bind stage) (r'.bind stage) := by
  cases first with
  | ok alike => exact next _ _ alike
  | error alike => exact .error alike

theorem parseURI_attach (h : HttpData) (channel : Channel) (timer : Option TimerId) :
    (h.attach channel timer).parseURI = (h.parseURI.1.attach channel timer, h.parseURI.2) := by
  have own : h.parseURI.1 = _ :=
    congrArg Prod.fst (HttpData.parseURI_same (h := h) (k := h) rfl rfl rfl rfl rfl)
  rw [HttpData.parseURI_same (h := h) (k := h.attach channel timer) rfl rfl rfl rfl rfl]
  exact Prod.ext (congrArg (HttpData.attach · channel timer) own).symm rfl

theorem parseHeaders_attach (outside : Int → UInt8) (h : HttpData) (channel : Channel)
    (timer : Option TimerId) : (h.attach channel timer).parseHeaders outside =
      ((h.parseHeaders outside).1.attach channel timer, (h.parseHeaders outside).2) := by
  unfold HttpData.parseHeaders
  change HttpData.endScan _ (scanFrom outside h.inBuffer_ 0 h.inBuffer_ h.beginScan) = _
  generalize scanFrom outside h.inBuffer_ 0 h.inBuffer_ h.beginScan = scan
  -- Only the members behind the scan are read and set; the channel and the timer are not.
  cases scan with
  | error exit => cases exit <;> rfl
  | ok st =>
    unfold HttpData.endScan HttpData.attach
    dsimp only
    repeat' split
    all_goals rfl

theorem parseUriStage_alike {s t : Conn} (alike : Alike s t) :
    AlikeOutcome (parseUriStage s) (parseUriStage t) := by
  obtain ⟨channel, timer, http⟩ := alike.http
  have state : t.http.state_ = s.http.state_ := by rw [http]; rfl
  unfold parseUriStage
  rw [state, http, parseURI_attach]
  split
  · generalize s.http.parseURI = result
    obtain ⟨h, flag⟩ := result
    cases flag with
    | again => exact .error (alike.setHttp rfl)
    | error => exact .error (((alike.setHttp rfl).setHttp rfl).handleError _ _)
    | success => exact .ok (alike.setHttp rfl)
  · exact .ok alike

theorem parseHeadersStage_alike {w : World} {s t : Conn} (alike : Alike s t) :
    AlikeOutcome (parseHeadersStage w s) (parseHeadersStage w t) := by
  obtain ⟨channel, timer, http⟩ := alike.http
  have state : t.http.state_ = s.http.state_ := by rw [http]; rfl
  unfold parseHeadersStage
  rw [state, http, parseHeaders_attach]
  split
  · generalize s.http.parseHeaders w.outside = result
    obtain ⟨h, flag⟩ := result
    cases flag with
    | again => exact .error (alike.setHttp rfl)
    | thrown => exact .error (alike.setHttp rfl)
    | error => exact .error (((alike.setHttp rfl).setHttp rfl).handleError _ _)
    -- A POST goes on to its body, any other request to its analysis.
    | success =>
      change AlikeOutcome (if h.method_ = .post then _ else _) (if h.method_ = .post then _ else _)
      split
      · exact .ok (alike.setHttp rfl)
      · exact .ok (alike.setHttp rfl)
  · exact .ok alike

theorem badRequest_alike {s t : Conn} (alike : Alike s t) (msg : Bytes) :
    AlikeOutcome (badRequest s msg) (badRequest t msg) := by
  obtain ⟨channel, timer, http⟩ := alike.http
  have marked : { t.http with error_ := true } =
      HttpData.attach { s.http with error_ := true } channel timer := by rw [http]; rfl
  exact .error ((alike.setHttp marked).handleError _ _)

theorem recvBodyStage_alike {s t : Conn} (alike : Alike s t) :
    AlikeOutcome (recvBodyStage s) (recvBodyStage t) := by
  obtain ⟨channel, timer, http⟩ := alike.http
  have state : t.http.state_ = s.http.state_ := by rw [http]; rfl
  have length : t.http.getContentLength = s.http.getContentLength := by rw [http]; rfl
  have buffer : t.http.inBuffer_ = s.http.inBuffer_ := by rw [http]; rfl
  have moved : { t.http with state_ := .analysis } =
      HttpData.attach { s.http with state_ := .analysis } channel timer := by rw [http]; rfl
  unfold recvBodyStage
  rw [state, length, buffer]
  -- The length and the buffer decide, and both are the same.
  split
  · split
    · exact badRequest_alike alike _
    · split
      · exact .error alike
      · exact .ok (alike.setHttp moved)
  · exact .ok alike

theorem parseStages_alike {w : World} {s t : Conn} (alike : Alike s t) :
    AlikeOutcome (parseStages w s) (parseStages w t) :=
  (parseUriStage_alike alike).bind fun _ _ alike =>
    (parseHeadersStage_alike alike).bind fun _ _ alike => recvBodyStage_alike alike

/-! ### Answering -/

/-- Two results of answering: the same verdict, with connections alike. -/
def AlikeAnswer (p q : Conn × AnalysisState) : Prop := Alike p.1 q.1 ∧ q.2 = p.2

theorem Alike.called {s t : Conn} (alike : Alike s t) (request : LightAgentGateway.Request) :
    Alike { s with wire := { s.wire with calls := s.wire.calls ++ [request] } }
      { t with wire := { t.wire with calls := t.wire.calls ++ [request] } } :=
  ⟨alike.http, alike.sent, congrArg (· ++ [request]) alike.calls, alike.served,
    ⟨alike.left.reads, alike.left.writes⟩, ⟨alike.right.reads, alike.right.writes⟩⟩

theorem Alike.counted {s t : Conn} (alike : Alike s t) :
    Alike { s with wire := { s.wire with served := s.wire.served + 1 } }
      { t with wire := { t.wire with served := t.wire.served + 1 } } :=
  ⟨alike.http, alike.sent, alike.calls, congrArg (· + 1) alike.served,
    ⟨alike.left.reads, alike.left.writes⟩, ⟨alike.right.reads, alike.right.writes⟩⟩

theorem answerApiRequest_alike (view : LightAgentGateway.View) {s t : Conn} (alike : Alike s t)
    (contentLength : Option Nat) (body : Bytes) :
    AlikeAnswer (answerApiRequest view s contentLength body)
      (answerApiRequest view t contentLength body) := by
  obtain ⟨h, wire, epoll⟩ := t
  obtain ⟨channel, timer, rfl : h = _⟩ := alike.http
  have called := alike.called ⟨toGatewayMethod s.http.method_, bytes "/" ++ s.http.fileName_, body⟩
  unfold answerApiRequest
  dsimp only [HttpData.attach]
  split
  · exact ⟨called, rfl⟩
  · exact ⟨called.setHttp rfl, rfl⟩

theorem analysisApiRequest_alike (view : LightAgentGateway.View) {s t : Conn}
    (alike : Alike s t) :
    AlikeAnswer (analysisApiRequest view s) (analysisApiRequest view t) := by
  obtain ⟨channel, timer, http⟩ := alike.http
  have method : t.http.method_ = s.http.method_ := by rw [http]; rfl
  have length : t.http.getContentLength = s.http.getContentLength := by rw [http]; rfl
  have buffer : t.http.inBuffer_ = s.http.inBuffer_ := by rw [http]; rfl
  unfold analysisApiRequest
  rw [method, length, buffer]
  repeat' split
  · exact ⟨alike, rfl⟩
  · exact ⟨alike, rfl⟩
  · exact answerApiRequest_alike view alike _ _
  · exact answerApiRequest_alike view alike _ _

theorem analysisStaticRequest_alike (fs : Bytes → Option FileStat) {s t : Conn}
    (alike : Alike s t) :
    AlikeAnswer (analysisStaticRequest fs s) (analysisStaticRequest fs t) := by
  obtain ⟨h, wire, epoll⟩ := t
  obtain ⟨channel, timer, rfl : h = _⟩ := alike.http
  have kept : (s.http.attach channel timer).isKeepAliveRequested =
      s.http.isKeepAliveRequested := rfl
  unfold analysisStaticRequest notFound
  rw [kept]
  dsimp only [HttpData.attach]
  -- One case a return of `analysisStaticRequest`, in its order.
  repeat' split
  · exact ⟨alike.setHttp rfl, rfl⟩
  · exact ⟨alike.setHttp rfl, rfl⟩
  · exact ⟨(alike.setHttp rfl).handleError _ _, rfl⟩
  · exact ⟨alike.setHttp rfl, rfl⟩
  · exact ⟨((alike.setHttp rfl).setHttp rfl).handleError _ _, rfl⟩
  · exact ⟨((alike.setHttp rfl).setHttp rfl).handleError _ _, rfl⟩
  · exact ⟨alike.setHttp rfl, rfl⟩

theorem analysisRequest_alike (w : World) {s t : Conn} (alike : Alike s t) :
    AlikeAnswer (analysisRequest w s) (analysisRequest w t) := by
  obtain ⟨channel, timer, http⟩ := alike.http
  have name : t.http.fileName_ = s.http.fileName_ := by rw [http]; rfl
  have method : t.http.method_ = s.http.method_ := by rw [http]; rfl
  have counted := alike.counted
  unfold analysisRequest
  dsimp only
  rw [name, method, alike.served] at *
  repeat' split
  · exact analysisApiRequest_alike _ counted
  · exact ⟨counted, rfl⟩
  · exact analysisStaticRequest_alike _ counted
  · exact analysisStaticRequest_alike _ counted

theorem analyse_alike (w : World) {s t : Conn} (alike : Alike s t) :
    Alike (analyse w s) (analyse w t) := by
  obtain ⟨answer, verdict⟩ := analysisRequest_alike w alike
  unfold analyse
  generalize analysisRequest w s = p at *
  generalize analysisRequest w t = q at *
  obtain ⟨s', flag⟩ := p
  obtain ⟨t', flag'⟩ := q
  obtain ⟨channel, timer, http⟩ := answer.http
  dsimp only at verdict http
  subst verdict
  have finished : { t'.http with state_ := .finish } =
      HttpData.attach { s'.http with state_ := .finish } channel timer := by rw [http]; rfl
  have failed : { t'.http with error_ := true } =
      HttpData.attach { s'.http with error_ := true } channel timer := by rw [http]; rfl
  -- The verdict is the same, so both end or both fail.
  cases flag'
  · exact answer.setHttp finished
  · exact answer.setHttp failed

/-! ### Whole handlers -/

/-- The connection once the socket has taken all of its output. -/
def Conn.drain (s : Conn) (rest : List WriteResult) : Conn where
  http := { s.http with outBuffer_ := [] }
  wire := { s.wire with writes := rest, sent := s.wire.sent ++ s.http.outBuffer_ }
  epoll := s.epoll

theorem handleWrite_unblocked {s : Conn} (free : Unblocked s.wire.writes)
    (alive : s.http.error_ = false) (here : s.http.connectionState_ ≠ .disconnected) :
    ∃ rest, Unblocked rest ∧ handleWrite s = s.drain rest := by
  obtain ⟨rest, free', out⟩ := writen_unblocked s.http.outBuffer_ free
  refine ⟨rest, free', ?_⟩
  have active : (!s.http.error_) = true ∧ s.http.connectionState_ ≠ .disconnected :=
    ⟨by rw [alive]; rfl, here⟩
  unfold handleWrite
  rw [if_pos active, out]
  simp only [afterWrite, Conn.drain, alive, Option.isNone_some, Bool.or_self, ne_eq,
    not_true_eq_false, if_false, Bool.false_eq_true]

theorem handleWrite_alike {s t : Conn} (alike : Alike s t) :
    Alike (handleWrite s) (handleWrite t) := by
  obtain ⟨channel, timer, http⟩ := alike.http
  have error : t.http.error_ = s.http.error_ := by rw [http]; rfl
  have state : t.http.connectionState_ = s.http.connectionState_ := by rw [http]; rfl
  -- Kernels that do not block take all of the output, however they cut it.
  by_cases active : s.http.error_ = false ∧ s.http.connectionState_ ≠ .disconnected
  · obtain ⟨rest, free, eq⟩ := handleWrite_unblocked alike.left.writes active.1 active.2
    obtain ⟨rest', free', eq'⟩ := handleWrite_unblocked alike.right.writes
      (error.trans active.1) (state ▸ active.2)
    rw [eq, eq']
    refine ⟨⟨channel, timer, ?_⟩, ?_, alike.calls, alike.served, ⟨alike.left.reads, free⟩,
      ⟨alike.right.reads, free'⟩⟩
    · unfold Conn.drain; rw [http]; rfl
    · unfold Conn.drain; rw [http, alike.sent]; rfl
  · have idle (u : Conn) (off : ¬(u.http.error_ = false ∧
        u.http.connectionState_ ≠ .disconnected)) : handleWrite u = u := by
      unfold handleWrite
      rw [if_neg (by simpa using off)]
    rw [idle s active, idle t (by rw [error, state]; exact active)]
    exact alike

theorem seperateTimer_alike (s : Conn) (quiet : Quiet s.wire) : Alike s (seperateTimer s) := by
  unfold seperateTimer
  split
  · exact ⟨⟨s.http.channel_, none, rfl⟩, rfl, rfl, rfl, quiet, quiet⟩
  · exact .refl quiet

theorem setEvents_alike (s : Conn) (quiet : Quiet s.wire) (events : Events) :
    Alike s (s.setEvents events) :=
  ⟨⟨_, s.http.timer_, rfl⟩, rfl, rfl, rfl, quiet, quiet⟩

theorem flush_alike {s t : Conn} (alike : Alike s t) : Alike (flush s) (flush t) := by
  obtain ⟨channel, timer, http⟩ := alike.http
  have error : t.http.error_ = s.http.error_ := by rw [http]; rfl
  have output : t.http.outBuffer_ = s.http.outBuffer_ := by rw [http]; rfl
  unfold flush
  rw [error, output]
  repeat' split
  · exact alike
  · exact handleWrite_alike alike
  · exact alike

theorem reset_alike {s t : Conn} (alike : Alike s t) : Alike (reset s) (reset t) := by
  obtain ⟨channel, timer, http⟩ := alike.http
  have cleared := alike.setHttp (h := { s.http with
      fileName_ := [], nowReadPos_ := 0, state_ := .parseUri, hState_ := .start,
      headers_ := .empty }) (k := { t.http with
      fileName_ := [], nowReadPos_ := 0, state_ := .parseUri, hState_ := .start,
      headers_ := .empty }) (by rw [http]; rfl)
  exact ((seperateTimer_alike _ cleared.left).symm.trans cleared).trans
    (seperateTimer_alike _ cleared.right)

theorem rearm_alike {s : Conn} (quiet : Quiet s.wire) : Alike s (rearm s) := by
  obtain ⟨events, rearmed⟩ := rearm_events s
  rw [rearmed]
  exact setEvents_alike s quiet events

/-- With nothing to read, reading clears the buffer of a peer that is gone, or does nothing. -/
theorem readStage_quiet {s : Conn} (quiet : s.wire.reads = []) :
    readStage s = if s.http.connectionState_ = .disconnecting then
      .error (s.setHttp { s.http with inBuffer_ := [] }) else .ok s := by
  obtain ⟨h, ⟨reads, writes, now, epollCtl, sent, calls, served⟩, epoll⟩ := s
  subst quiet
  rfl

theorem readStage_alike {s t : Conn} (alike : Alike s t) :
    AlikeOutcome (readStage s) (readStage t) := by
  obtain ⟨channel, timer, http⟩ := alike.http
  have state : t.http.connectionState_ = s.http.connectionState_ := by rw [http]; rfl
  have cleared : { t.http with inBuffer_ := [] } =
      HttpData.attach { s.http with inBuffer_ := [] } channel timer := by rw [http]; rfl
  rw [readStage_quiet alike.left.reads, readStage_quiet alike.right.reads, state]
  split
  · exact .error (alike.setHttp cleared)
  · exact .ok alike

theorem readBlock_alike (w : World) {s t : Conn} (alike : Alike s t) :
    Alike (readBlock w s) (readBlock w t) := by
  have stages : AlikeOutcome (toAnalysis w s) (toAnalysis w t) :=
    (readStage_alike alike).bind fun _ _ alike => parseStages_alike alike
  unfold readBlock
  generalize toAnalysis w s = r at stages ⊢
  generalize toAnalysis w t = r' at stages ⊢
  -- The stages stop together, or both come to the analysis.
  cases stages with
  | error alike => exact alike
  | @ok s' t' alike =>
    obtain ⟨channel, timer, http⟩ := alike.http
    have state : t'.http.state_ = s'.http.state_ := by rw [http]; rfl
    unfold endBlock
    dsimp only
    rw [state]
    by_cases ready : s'.http.state_ = .analysis
    · rw [if_pos ready, if_pos ready]
      exact analyse_alike w alike
    · rw [if_neg ready, if_neg ready]
      exact alike

theorem Alike.finished {s t : Conn} (alike : Alike s t) : s.finished ↔ t.finished := by
  obtain ⟨channel, timer, http⟩ := alike.http
  unfold Conn.finished
  rw [http]; rfl

theorem Alike.continues {s t : Conn} (alike : Alike s t) : s.continues ↔ t.continues := by
  obtain ⟨channel, timer, http⟩ := alike.http
  unfold Conn.continues
  rw [http]; rfl

theorem Alike.input {s t : Conn} (alike : Alike s t) : s.input = t.input := by
  obtain ⟨channel, timer, http⟩ := alike.http
  unfold Conn.input
  rw [http, alike.left.reads, alike.right.reads]; rfl

theorem handleReadFrom_alike (w : World) {depth : Nat} {s t : Conn} (alike : Alike s t) :
    Alike (handleReadFrom w depth s) (handleReadFrom w depth t) := by
  induction depth generalizing s t with
  | zero => exact alike
  | succ depth ih =>
    have round := flush_alike (readBlock_alike w alike)
    rw [handleReadFrom, handleReadFrom]
    dsimp only
    simp only [← round.finished, ← (reset_alike round).continues]
    -- The round ends alike: with the next one, with nothing left, or rearmed.
    repeat' split
    · exact ih (reset_alike round)
    · exact reset_alike round
    · exact ((rearm_alike round.left).symm.trans round).trans (rearm_alike round.right)

/-- `handleRead` keeps connections alike. -/
theorem handleRead_alike (w : World) {s t : Conn} (alike : Alike s t) :
    Alike (handleRead w s) (handleRead w t) := by
  unfold handleRead
  rw [alike.input]
  exact handleReadFrom_alike w alike

/-! ### The peer stays there -/

theorem Parsed.connectionState_ {s : Conn} {r : Except Conn Conn} (parsed : Parsed s r) :
    (outcome r).http.connectionState_ = s.http.connectionState_ := by
  cases parsed with
  | goesOn h frame _ => exact frame.connectionState_
  | waits h frame _ _ => exact frame.connectionState_
  | rejects h msg frame _ => exact frame.connectionState_

theorem analyse_connectionState (w : World) (s : Conn) :
    (analyse w s).http.connectionState_ = s.http.connectionState_ := by
  obtain ⟨⟨_, _, _, _, http⟩, _, _⟩ := analysisRequest_frame w s
  have kept : (analysisRequest w s).1.http.connectionState_ = s.http.connectionState_ := by
    rw [http]
  rcases analyse_cases w s with ⟨_, done⟩ | ⟨_, done⟩
  · rw [done]
    exact kept
  · rw [done]
    exact kept

/-- Only a read can show that the peer is gone. -/
theorem readBlock_connectionState (w : World) {s : Conn} (quiet : s.wire.reads = []) :
    (readBlock w s).http.connectionState_ = s.http.connectionState_ := by
  unfold readBlock toAnalysis
  -- With nothing to read the peer cannot be found gone here.
  rw [readStage_quiet quiet]
  split
  · rfl
  · have parsed := (parseStages_parsed w s).connectionState_
    change (endBlock w (parseStages w s)).http.connectionState_ = _
    cases stages : parseStages w s with
    | error s₁ => rw [stages] at parsed; exact parsed
    | ok s₁ =>
      rw [stages] at parsed
      unfold endBlock
      dsimp only
      split
      · exact (analyse_connectionState w s₁).trans parsed
      · exact parsed

theorem handleWrite_connectionState (s : Conn) :
    (handleWrite s).http.connectionState_ = s.http.connectionState_ := by
  unfold handleWrite
  split <;> rfl

theorem flush_connectionState (s : Conn) :
    (flush s).http.connectionState_ = s.http.connectionState_ := by
  refine flush_cases s ?stays ?writes
  case stays => rfl
  case writes => exact fun _ => handleWrite_connectionState s

theorem reset_connectionState (s : Conn) :
    (reset s).http.connectionState_ = s.http.connectionState_ := by
  unfold reset seperateTimer
  split <;> rfl

theorem rearm_connectionState (s : Conn) :
    (rearm s).http.connectionState_ = s.http.connectionState_ := by
  obtain ⟨events, rearmed⟩ := rearm_events s
  rw [rearmed]
  rfl

theorem handleRead_connectionState (w : World) {s : Conn} (quiet : Quiet s.wire) :
    (handleRead w s).http.connectionState_ = s.http.connectionState_ := by
  have round {s : Conn} (quiet : Quiet s.wire) :
      (flush (readBlock w s)).http.connectionState_ = s.http.connectionState_ :=
    (flush_connectionState _).trans (readBlock_connectionState w quiet.reads)
  revert quiet
  apply handleRead_induct (motive := fun s t => Quiet s.wire →
    t.http.connectionState_ = s.http.connectionState_)
  · intro s _ quiet
    exact (rearm_connectionState _).trans (round quiet)
  · intro s _ _ quiet
    exact (reset_connectionState _).trans (round quiet)
  · intro s t _ _ rest quiet
    -- The next round starts with nothing to read, as this one did.
    have still := (reset_alike (flush_alike (readBlock_alike w (.refl quiet)))).right
    exact (rest still).trans ((reset_connectionState _).trans (round quiet))

end LightAgent

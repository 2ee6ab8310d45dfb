import LightAgent.HttpData.HandleRead

/-!
# What a round of handleRead may change

One lemma for each stage says all it can do to the members and to the socket. From
them: every round uses up input, so the bound on the depth of `handleRead` is never
met and the handler satisfies its own recursion equation.
-/
namespace LightAgent

open Library

/-! ### Parsing -/

/-- What parsing leaves alone; of the buffer it only takes bytes off the front. -/
structure ParseFrame (h h' : HttpData) : Prop where
  this : h'.this = h.this
  loop_ : h'.loop_ = h.loop_
  fd_ : h'.fd_ = h.fd_
  channel_ : h'.channel_ = h.channel_
  timer_ : h'.timer_ = h.timer_
  outBuffer_ : h'.outBuffer_ = h.outBuffer_
  keepAlive_ : h'.keepAlive_ = h.keepAlive_
  connectionState_ : h'.connectionState_ = h.connectionState_
  nowReadPos_ : h'.nowReadPos_ = h.nowReadPos_
  inBuffer_ : h'.inBuffer_ <:+ h.inBuffer_

theorem ParseFrame.refl (h : HttpData) : ParseFrame h h :=
  ⟨rfl, rfl, rfl, rfl, rfl, rfl, rfl, rfl, rfl, List.suffix_refl _⟩

theorem ParseFrame.trans {h₁ h₂ h₃ : HttpData} (first : ParseFrame h₁ h₂)
    (second : ParseFrame h₂ h₃) : ParseFrame h₁ h₃ where
  this := second.this.trans first.this
  loop_ := second.loop_.trans first.loop_
  fd_ := second.fd_.trans first.fd_
  channel_ := second.channel_.trans first.channel_
  timer_ := second.timer_.trans first.timer_
  outBuffer_ := second.outBuffer_.trans first.outBuffer_
  keepAlive_ := second.keepAlive_.trans first.keepAlive_
  connectionState_ := second.connectionState_.trans first.connectionState_
  nowReadPos_ := second.nowReadPos_.trans first.nowReadPos_
  inBuffer_ := second.inBuffer_.trans first.inBuffer_

/-- The ways a parsing stage can end: it goes on, it waits for more input, or it
rejects the request with a 400 page. -/
inductive Parsed (s : Conn) : Except Conn Conn → Prop
  | goesOn (h : HttpData) : ParseFrame s.http h → h.error_ = s.http.error_ →
      Parsed s (.ok (s.setHttp h))
  | waits (h : HttpData) : ParseFrame s.http h → h.error_ = s.http.error_ →
      h.state_ ≠ .finish → Parsed s (.error (s.setHttp h))
  | rejects (h : HttpData) (msg : Bytes) : ParseFrame s.http h → h.error_ = true →
      Parsed s (.error (handleError (s.setHttp h) 400 msg))

theorem Parsed.of_ok {s t : Conn} (parsed : Parsed s (.ok t)) :
    ∃ h, t = s.setHttp h ∧ ParseFrame s.http h ∧ h.error_ = s.http.error_ := by
  generalize outcome : (Except.ok t : Except Conn Conn) = r at parsed
  cases parsed with
  | goesOn h frame same => cases outcome; exact ⟨h, rfl, frame, same⟩
  | waits => cases outcome
  | rejects => cases outcome

theorem Parsed.of_error {s t : Conn} (parsed : Parsed s (.error t)) :
    ∃ h, ParseFrame s.http h ∧ (t = s.setHttp h ∧ h.error_ = s.http.error_ ∧ h.state_ ≠ .finish ∨
      ∃ msg, t = handleError (s.setHttp h) 400 msg ∧ h.error_ = true) := by
  generalize outcome : (Except.error t : Except Conn Conn) = r at parsed
  cases parsed with
  | goesOn => cases outcome
  | waits h frame same state => cases outcome; exact ⟨h, frame, .inl ⟨rfl, same, state⟩⟩
  | rejects h msg frame failed => cases outcome; exact ⟨h, frame, .inr ⟨msg, rfl, failed⟩⟩

theorem Parsed.stay (s : Conn) : Parsed s (.ok s) := .goesOn s.http (.refl _) rfl

theorem Parsed.bind {s : Conn} {r : Except Conn Conn} (first : Parsed s r)
    {stage : Conn → Except Conn Conn} (next : ∀ s', Parsed s' (stage s')) :
    Parsed s (r.bind stage) := by
  cases first with
  | waits h frame same state => exact .waits h frame same state
  | rejects h msg frame failed => exact .rejects h msg frame failed
  | goesOn h frame same =>
    change Parsed s (stage (s.setHttp h))
    generalize outcome : stage (s.setHttp h) = r
    -- What the next stage does adds to what this one did.
    cases outcome ▸ next (s.setHttp h) with
    | goesOn h' frame' same' => exact .goesOn h' (frame.trans frame') (same'.trans same)
    | waits h' frame' same' state => exact .waits h' (frame.trans frame') (same'.trans same) state
    | rejects h' msg frame' failed => exact .rejects h' msg (frame.trans frame') failed

/-- What `parseURI` may change, with the line cut off when there is one. -/
theorem HttpData.parseURI_frame (h : HttpData) :
    h.parseURI = (h, .again) ∨
      ∃ pos < h.inBuffer_.length, ∃ method version file flag, flag ≠ .again ∧
        h.parseURI = ({ h with inBuffer_ := h.inBuffer_.drop (pos + 1), method_ := method,
                               HTTPVersion_ := version, fileName_ := file }, flag) := by
  unfold parseURI
  cases found : findFrom [CR] h.inBuffer_ h.nowReadPos_ with
  | none => exact .inl rfl
  | some pos =>
    right
    have inside := findFrom_byte_lt found
    -- The line up to the CR is cut off before it is parsed, also where it is refused.
    rcases parseLine_cases (h.inBuffer_.take pos) with ⟨method, version, file, eq⟩ | ⟨method, file, eq⟩
    · exact ⟨pos, inside, method, version, file, .success, nofun, eq _⟩
    · exact ⟨pos, inside, method h.method_, h.HTTPVersion_, file h.fileName_, .error, nofun, eq _⟩

theorem parseUriStage_parsed (s : Conn) : Parsed s (parseUriStage s) := by
  unfold parseUriStage
  split
  next state =>
    rcases s.http.parseURI_frame with waits | ⟨pos, _, method, version, file, flag, _, eq⟩
    · rw [waits]
      exact .waits _ (.refl _) rfl (by rw [state]; decide)
    · rw [eq]
      cases flag with
      | again => contradiction
      -- A refused line clears the buffer as well.
      | error =>
        refine .rejects { s.http with inBuffer_ := [], method_ := method, HTTPVersion_ := version,
                                      fileName_ := file, error_ := true } _ ?_ rfl
        exact ⟨rfl, rfl, rfl, rfl, rfl, rfl, rfl, rfl, rfl, List.nil_suffix⟩
      | success =>
        refine .goesOn { s.http with inBuffer_ := s.http.inBuffer_.drop (pos + 1),
                                     method_ := method, HTTPVersion_ := version,
                                     fileName_ := file, state_ := .parseHeaders } ?_ rfl
        exact ⟨rfl, rfl, rfl, rfl, rfl, rfl, rfl, rfl, rfl, List.drop_suffix _ _⟩
  next => exact .stay s

/-- Beyond the request line there is less in the buffer. -/
theorem parseUriStage_shrinks {s s' : Conn} (state : s.http.state_ = .parseUri)
    (done : parseUriStage s = .ok s') :
    s'.http.inBuffer_.length < s.http.inBuffer_.length := by
  unfold parseUriStage at done
  rw [if_pos state] at done
  rcases s.http.parseURI_frame with waits | ⟨pos, inside, method, version, file, flag, _, eq⟩
  · rw [waits] at done; cases done
  · rw [eq] at done
    cases flag <;> cases done
    change (s.http.inBuffer_.drop (pos + 1)).length < _
    rw [List.length_drop]; omega

/-- What `parseHeaders` may change. -/
theorem HttpData.parseHeaders_frame (outside : Int → UInt8) (h : HttpData) :
    ∃ hState headers inBuffer, inBuffer <:+ h.inBuffer_ ∧ (h.parseHeaders outside).1 =
      { h with hState_ := hState, headers_ := headers, inBuffer_ := inBuffer } := by
  unfold parseHeaders endScan
  split
  · exact ⟨_, _, _, List.suffix_refl _, rfl⟩
  · exact ⟨_, _, _, List.suffix_refl _, rfl⟩
  · dsimp only
    repeat' split
    · exact ⟨_, _, _, List.nil_suffix, rfl⟩
    · exact ⟨_, _, _, List.nil_suffix, rfl⟩
    · exact ⟨_, _, _, List.drop_suffix _ _, rfl⟩
    · exact ⟨_, _, _, List.suffix_refl _, rfl⟩
    · exact ⟨_, _, _, List.drop_suffix _ _, rfl⟩

theorem parseHeadersStage_parsed (w : World) (s : Conn) : Parsed s (parseHeadersStage w s) := by
  unfold parseHeadersStage
  split
  next state =>
    obtain ⟨hState, headers, inBuffer, suffix, eq⟩ := s.http.parseHeaders_frame w.outside
    generalize call : s.http.parseHeaders w.outside = result at eq
    obtain ⟨h, flag⟩ := result
    -- `parseHeaders` sets three members; the rest of the frame is by definition.
    cases eq
    have frame (state : ProcessState) (error : Bool) : ParseFrame s.http
        { s.http with hState_ := hState, headers_ := headers, inBuffer_ := inBuffer,
                      state_ := state, error_ := error } :=
      ⟨rfl, rfl, rfl, rfl, rfl, rfl, rfl, rfl, rfl, suffix⟩
    cases flag with
    | again => exact .waits _ (frame _ _) rfl (by rw [state]; decide)
    | thrown => exact .waits _ (frame _ _) rfl (by rw [state]; decide)
    | error => exact .rejects _ _ (frame s.http.state_ true) rfl
    | success =>
      dsimp only
      split
      · exact .goesOn _ (frame .recvBody s.http.error_) rfl
      · exact .goesOn _ (frame .analysis s.http.error_) rfl
  next => exact .stay s

theorem recvBodyStage_parsed (s : Conn) : Parsed s (recvBodyStage s) := by
  unfold recvBodyStage
  split
  next state =>
    split
    · exact .rejects _ _ ⟨rfl, rfl, rfl, rfl, rfl, rfl, rfl, rfl, rfl, List.suffix_refl _⟩ rfl
    · split
      · exact .waits s.http (.refl _) rfl (by rw [state]; decide)
      · exact .goesOn _ ⟨rfl, rfl, rfl, rfl, rfl, rfl, rfl, rfl, rfl, List.suffix_refl _⟩ rfl
  next => exact .stay s

/-- All the parsing of a round, as one stage. -/
theorem parseStages_parsed (w : World) (s : Conn) : Parsed s (parseStages w s) :=
  (parseUriStage_parsed s).bind fun s =>
    (parseHeadersStage_parsed w s).bind fun s => recvBodyStage_parsed s

/-! ### Reading -/

/-- What reading changes: the buffer, and the connection state when the peer is seen
to have closed. -/
def readInto (s : Conn) (inBuffer : Bytes) (rest : List ReadResult)
    (state : ConnectionState) : Conn :=
  { s with wire := { s.wire with reads := rest },
           http := { s.http with inBuffer_ := inBuffer, connectionState_ := state } }

theorem readnFrom_input (inBuffer : Bytes) (readSum : Nat) (rs : List ReadResult) :
    (readnFrom inBuffer readSum rs).inBuffer.length +
        ((readnFrom inBuffer readSum rs).rest.map ReadResult.size).sum =
      inBuffer.length + (rs.map ReadResult.size).sum := by
  -- What is read moves from the kernel to the buffer; the rest of it stays unread.
  induction rs generalizing inBuffer readSum with
  | nil => rfl
  | cons r rs ih =>
    cases r with
    | data b bs =>
      rw [readnFrom, ih]
      simp [ReadResult.size]
      omega
    | eintr => simpa [readnFrom, ReadResult.size] using ih inBuffer readSum
    | eof => simp [readnFrom, ReadResult.size]
    | eagain => simp [readnFrom, ReadResult.size]
    | error => simp [readnFrom, ReadResult.size]

/-- The ways `readStage` can end. -/
inductive ReadOutcome (s : Conn) : Except Conn Conn → Prop
  | goesOn (inBuffer : Bytes) (rest : List ReadResult) (state : ConnectionState) :
      inBuffer.length + (rest.map ReadResult.size).sum ≤ s.input →
      s.http.connectionState_ ≠ .disconnecting →
      state = s.http.connectionState_ ∨ state = .disconnecting →
      ReadOutcome s (.ok (readInto s inBuffer rest state))
  | stops (inBuffer : Bytes) (rest : List ReadResult) :
      inBuffer.length + (rest.map ReadResult.size).sum ≤ s.input →
      ReadOutcome s (.error (readInto s inBuffer rest .disconnecting))
  | fails (inBuffer : Bytes) (rest : List ReadResult) :
      inBuffer.length + (rest.map ReadResult.size).sum ≤ s.input →
      s.http.connectionState_ ≠ .disconnecting →
      ReadOutcome s (badRequest (readInto s inBuffer rest s.http.connectionState_) (bytes "Bad Request"))

/-- A read that goes on. -/
theorem ReadOutcome.of_ok {s t : Conn} (read : ReadOutcome s (.ok t)) :
    ∃ inBuffer rest state, t = readInto s inBuffer rest state ∧
      inBuffer.length + (rest.map ReadResult.size).sum ≤ s.input := by
  generalize outcome : (Except.ok t : Except Conn Conn) = r at read
  cases read with
  | goesOn inBuffer rest state bound _ _ => cases outcome; exact ⟨inBuffer, rest, state, rfl, bound⟩
  | stops => cases outcome
  | fails => cases outcome

theorem readStage_outcome (s : Conn) : ReadOutcome s (readStage s) := by
  have size := readnFrom_input s.http.inBuffer_ 0 s.wire.reads
  change (readn _ _).inBuffer.length + ((readn _ _).rest.map _).sum = s.input at size
  unfold readStage
  generalize readn s.http.inBuffer_ s.wire.reads = result at size ⊢
  dsimp only
  split
  -- A connection that is gone loses its buffer, so the bound can only get smaller.
  next gone =>
    have bound : ([] : Bytes).length + (result.rest.map ReadResult.size).sum ≤ s.input := by
      rw [List.length_nil]; omega
    have eq := ReadOutcome.stops (s := s) [] result.rest bound
    unfold readInto at eq
    rw [← gone] at eq
    exact eq
  next here =>
    split
    · exact .fails result.inBuffer result.rest (Nat.le_of_eq size) here
    · split
      · split
        · exact .stops result.inBuffer result.rest (Nat.le_of_eq size)
        · exact .goesOn result.inBuffer result.rest _ (Nat.le_of_eq size) here (.inr rfl)
      · exact .goesOn result.inBuffer result.rest _ (Nat.le_of_eq size) here (.inl rfl)

/-! ### Answering -/

/-- What answering a request may change: the buffers, `keepAlive_`, and what has gone
over the wire. -/
structure AnswerFrame (s s' : Conn) : Prop where
  http : ∃ inBuffer outBuffer keepAlive, inBuffer <:+ s.http.inBuffer_ ∧
    s'.http = { s.http with
      inBuffer_ := inBuffer, outBuffer_ := outBuffer, keepAlive_ := keepAlive }
  wire : ∃ writes sent calls served, s'.wire =
    { s.wire with writes := writes, sent := sent, calls := calls, served := served }
  epoll : s'.epoll = s.epoll

theorem AnswerFrame.trans {s₁ s₂ s₃ : Conn} (first : AnswerFrame s₁ s₂)
    (second : AnswerFrame s₂ s₃) : AnswerFrame s₁ s₃ := by
  obtain ⟨⟨_, _, _, suffix₁, http₁⟩, ⟨_, _, _, _, wire₁⟩, epoll₁⟩ := first
  obtain ⟨⟨_, _, _, suffix₂, http₂⟩, ⟨_, _, _, _, wire₂⟩, epoll₂⟩ := second
  rw [http₁] at suffix₂ http₂
  rw [wire₁] at wire₂
  exact ⟨⟨_, _, _, suffix₂.trans suffix₁, http₂⟩, ⟨_, _, _, _, wire₂⟩, epoll₂.trans epoll₁⟩

theorem AnswerFrame.setHttp (s : Conn) (inBuffer outBuffer : Bytes) (keepAlive : Bool)
    (suffix : inBuffer <:+ s.http.inBuffer_) : AnswerFrame s (s.setHttp { s.http with
      inBuffer_ := inBuffer, outBuffer_ := outBuffer, keepAlive_ := keepAlive }) :=
  ⟨⟨_, _, _, suffix, rfl⟩, ⟨_, _, _, _, rfl⟩, rfl⟩

theorem AnswerFrame.handleError (s : Conn) (err_num : Nat) (msg : Bytes) :
    AnswerFrame s (handleError s err_num msg) :=
  ⟨⟨_, _, _, List.suffix_refl _, rfl⟩, ⟨_, _, _, _, rfl⟩, rfl⟩

theorem AnswerFrame.serve (s : Conn) (calls : List LightAgentGateway.Request) (served : Nat) :
    AnswerFrame s { s with wire := { s.wire with calls := calls, served := served } } :=
  ⟨⟨_, _, _, List.suffix_refl _, rfl⟩, ⟨_, _, _, _, rfl⟩, rfl⟩

theorem answerApiRequest_frame (view : LightAgentGateway.View) (s : Conn)
    (contentLength : Option Nat) (body : Bytes) :
    AnswerFrame s (answerApiRequest view s contentLength body).1 := by
  have called (r : LightAgentGateway.Request) := AnswerFrame.serve s (s.wire.calls ++ [r]) s.wire.served
  unfold answerApiRequest
  dsimp only
  split
  · exact called _
  · refine (called _).trans (AnswerFrame.setHttp _ _ _ _ ?_)
    cases contentLength
    · exact List.suffix_refl _
    · exact List.drop_suffix _ _

theorem analysisApiRequest_frame (view : LightAgentGateway.View) (s : Conn) :
    AnswerFrame s (analysisApiRequest view s).1 := by
  have stay : AnswerFrame s s := AnswerFrame.serve s s.wire.calls s.wire.served
  unfold analysisApiRequest
  repeat' split
  · exact stay
  · exact stay
  · exact answerApiRequest_frame _ _ _ _
  · exact answerApiRequest_frame _ _ _ _

theorem analysisStaticRequest_frame (fs : Bytes → Option FileStat) (s : Conn) :
    AnswerFrame s (analysisStaticRequest fs s).1 := by
  have answered (out : Bytes) (keepAlive : Bool) :=
    AnswerFrame.setHttp s s.http.inBuffer_ out keepAlive (List.suffix_refl _)
  have failed (out : Bytes) (keepAlive : Bool) :=
    (answered out keepAlive).trans (AnswerFrame.handleError _ 404 (bytes "Not Found!"))
  unfold analysisStaticRequest
  dsimp only
  -- Three returns go through `handleError`, which changes the wire only.
  repeat' split
  · exact answered _ _
  · exact answered _ _
  · exact failed _ _
  · exact answered _ _
  · exact failed _ _
  · exact failed _ _
  · exact answered _ _

theorem analysisRequest_frame (w : World) (s : Conn) : AnswerFrame s (analysisRequest w s).1 := by
  have counted := AnswerFrame.serve s s.wire.calls (s.wire.served + 1)
  unfold analysisRequest
  dsimp only
  repeat' split
  · exact counted.trans (analysisApiRequest_frame _ _)
  · exact counted
  · exact counted.trans (analysisStaticRequest_frame _ _)
  · exact counted.trans (analysisStaticRequest_frame _ _)

/-! ### A whole round -/

/-- What the block of `handleRead` leaves alone, and how the connection state and the
input may move. -/
structure BlockFrame (s s' : Conn) : Prop where
  this : s'.http.this = s.http.this
  loop_ : s'.http.loop_ = s.http.loop_
  fd_ : s'.http.fd_ = s.http.fd_
  channel_ : s'.http.channel_ = s.http.channel_
  timer_ : s'.http.timer_ = s.http.timer_
  epoll : s'.epoll = s.epoll
  now : s'.wire.now = s.wire.now
  epollCtl : s'.wire.epollCtl = s.wire.epollCtl
  connectionState_ : s'.http.connectionState_ = s.http.connectionState_ ∨
    s'.http.connectionState_ = .disconnecting
  input : s'.input ≤ s.input
  error_ : s.http.error_ = true → s'.http.error_ = true

theorem BlockFrame.trans {s₁ s₂ s₃ : Conn} (first : BlockFrame s₁ s₂)
    (second : BlockFrame s₂ s₃) : BlockFrame s₁ s₃ where
  this := second.this.trans first.this
  loop_ := second.loop_.trans first.loop_
  fd_ := second.fd_.trans first.fd_
  channel_ := second.channel_.trans first.channel_
  timer_ := second.timer_.trans first.timer_
  epoll := second.epoll.trans first.epoll
  now := second.now.trans first.now
  epollCtl := second.epollCtl.trans first.epollCtl
  connectionState_ := by
    rcases second.connectionState_ with h | h
    · exact h ▸ first.connectionState_
    · exact .inr h
  input := Nat.le_trans second.input first.input
  error_ failed := second.error_ (first.error_ failed)

theorem AnswerFrame.block {s s' : Conn} (frame : AnswerFrame s s') : BlockFrame s s' := by
  obtain ⟨⟨inBuffer, outBuffer, keepAlive, suffix, http⟩, ⟨_, _, _, _, wire⟩, epoll⟩ := frame
  have shorter := suffix.length_le
  refine ⟨?_, ?_, ?_, ?_, ?_, epoll, ?_, ?_, .inl ?_, ?_, ?_⟩
  case refine_9 =>
    rw [Conn.input, Conn.input, http, wire]
    dsimp only
    omega
  case refine_10 => rw [http]; exact id
  all_goals first
    | rw [http]
    | rw [wire]

theorem ParseFrame.block {s : Conn} {h : HttpData} (frame : ParseFrame s.http h)
    (failed : s.http.error_ = true → h.error_ = true) : BlockFrame s (s.setHttp h) where
  this := frame.this
  loop_ := frame.loop_
  fd_ := frame.fd_
  channel_ := frame.channel_
  timer_ := frame.timer_
  epoll := rfl
  now := rfl
  epollCtl := rfl
  connectionState_ := .inl frame.connectionState_
  -- A stage takes from the front of the buffer at most.
  input := by
    have shorter := frame.inBuffer_.length_le
    unfold Conn.input Conn.setHttp
    dsimp only
    omega
  error_ := failed

/-- The state a stage ends in, whether it goes on or not. -/
def outcome : Except Conn Conn → Conn
  | .ok s => s
  | .error s => s

theorem Parsed.block {s : Conn} {r : Except Conn Conn} (parsed : Parsed s r) :
    BlockFrame s (outcome r) := by
  cases parsed with
  | goesOn h frame same => exact frame.block same.trans
  | waits h frame same _ => exact frame.block same.trans
  | rejects h msg frame failed =>
    exact (frame.block fun _ => failed).trans (AnswerFrame.handleError _ 400 msg).block

theorem ReadOutcome.block {s : Conn} {r : Except Conn Conn} (read : ReadOutcome s r) :
    BlockFrame s (outcome r) := by
  cases read with
  | goesOn inBuffer rest state bound _ moved =>
    exact ⟨rfl, rfl, rfl, rfl, rfl, rfl, rfl, rfl, moved, bound, id⟩
  | stops inBuffer rest bound =>
    exact ⟨rfl, rfl, rfl, rfl, rfl, rfl, rfl, rfl, .inr rfl, bound, id⟩
  | fails inBuffer rest bound _ =>
    have moved : BlockFrame s ((readInto s inBuffer rest s.http.connectionState_).setHttp
        { (readInto s inBuffer rest s.http.connectionState_).http with error_ := true }) :=
      ⟨rfl, rfl, rfl, rfl, rfl, rfl, rfl, rfl, .inl rfl, bound, fun _ => rfl⟩
    exact moved.trans (AnswerFrame.handleError _ 400 (bytes "Bad Request")).block

theorem analyse_success {w : World} {s : Conn} (success : (analysisRequest w s).2 = .success) :
    analyse w s = (analysisRequest w s).1.setHttp
      { (analysisRequest w s).1.http with state_ := .finish } := by
  unfold analyse
  cases answer : analysisRequest w s with
  | mk s' flag =>
    rw [answer] at success
    cases success
    rfl

theorem analyse_failure {w : World} {s : Conn} (failure : (analysisRequest w s).2 = .error) :
    analyse w s = (analysisRequest w s).1.setHttp
      { (analysisRequest w s).1.http with error_ := true } := by
  unfold analyse
  cases answer : analysisRequest w s with
  | mk s' flag =>
    rw [answer] at failure
    cases failure
    rfl

/-- The analysis finishes the request or makes the connection fail. -/
theorem analyse_cases (w : World) (s : Conn) :
    ((analysisRequest w s).2 = .success ∧
      analyse w s = (analysisRequest w s).1.setHttp
        { (analysisRequest w s).1.http with state_ := .finish }) ∨
    ((analysisRequest w s).2 = .error ∧
      analyse w s = (analysisRequest w s).1.setHttp
        { (analysisRequest w s).1.http with error_ := true }) := by
  cases flag : (analysisRequest w s).2 with
  | success => exact .inl ⟨rfl, analyse_success flag⟩
  | error => exact .inr ⟨rfl, analyse_failure flag⟩

theorem analyse_block (w : World) (s : Conn) : BlockFrame s (analyse w s) := by
  have frame := (analysisRequest_frame w s).block
  rcases analyse_cases w s with ⟨_, done⟩ | ⟨_, done⟩
  · rw [done]
    exact frame.trans ⟨rfl, rfl, rfl, rfl, rfl, rfl, rfl, rfl, .inl rfl, Nat.le_refl _, id⟩
  · rw [done]
    exact frame.trans ⟨rfl, rfl, rfl, rfl, rfl, rfl, rfl, rfl, .inl rfl, Nat.le_refl _, fun _ => rfl⟩

theorem toAnalysis_block (w : World) (s : Conn) : BlockFrame s (outcome (toAnalysis w s)) := by
  have read := (readStage_outcome s).block
  unfold toAnalysis
  cases stage : readStage s with
  | error s₁ => rw [stage] at read; exact read
  | ok s₁ => rw [stage] at read; exact read.trans (parseStages_parsed w s₁).block

theorem readBlock_block (w : World) (s : Conn) : BlockFrame s (readBlock w s) := by
  have parsed := toAnalysis_block w s
  unfold readBlock
  cases stages : toAnalysis w s with
  | error s₁ => rw [stages] at parsed; exact parsed
  | ok s₁ =>
    rw [stages] at parsed
    unfold endBlock
    dsimp only
    split
    · exact parsed.trans (analyse_block w s₁)
    · exact parsed

/-! ### The depth of the recursion -/

/-- Rounds still possible: each uses up a byte, but for one that resumes a request. -/
def Conn.depth (s : Conn) : Nat := s.input + if s.http.state_ = .parseUri then 0 else 1

theorem toAnalysis_finished {w : World} {s s' : Conn} (stops : toAnalysis w s = .error s')
    (fresh : s.http.state_ = .parseUri) : ¬ s'.finished := by
  -- A stage that stops leaves an early state or sets `error_`.
  rcases bind_eq_error.mp stops with stage | ⟨s₁, _, stops⟩
  · have read := readStage_outcome s
    rw [stage] at read
    generalize outcome : (Except.error s' : Except Conn Conn) = r at read
    cases read with
    | goesOn => cases outcome
    | stops inBuffer rest => cases outcome; exact fun h => by simpa [readInto, fresh] using h.2
    | fails inBuffer rest => cases outcome; exact fun h => Bool.noConfusion h.1
  · have parsed := stops ▸ parseStages_parsed w s₁
    rcases parsed.of_error with ⟨h, frame, ⟨rfl, same, state⟩ | ⟨msg, rfl, failed⟩⟩
    · exact fun h => state h.2
    · intro done
      have := failed.symm.trans done.1
      cases this

theorem parseUriStage_input {s s' : Conn} (fresh : s.http.state_ = .parseUri)
    (done : parseUriStage s = .ok s') : s'.input < s.input := by
  have shorter := parseUriStage_shrinks fresh done
  have parsed := parseUriStage_parsed s
  rw [done] at parsed
  obtain ⟨h, rfl, _, _⟩ := parsed.of_ok
  exact Nat.add_lt_add_right shorter _

theorem toAnalysis_input {w : World} {s s' : Conn} (fresh : s.http.state_ = .parseUri)
    (done : toAnalysis w s = .ok s') : s'.input < s.input := by
  obtain ⟨s₁, stage, done⟩ := bind_eq_ok.mp done
  have read := readStage_outcome s
  rw [stage] at read
  obtain ⟨inBuffer, rest, state, rfl, bound⟩ := read.of_ok
  obtain ⟨s₂, line, done⟩ := bind_eq_ok.mp done
  -- The line is taken out of the buffer, and the other stages add nothing.
  have used := parseUriStage_input (s := readInto s inBuffer rest state) fresh line
  have left := ((parseHeadersStage_parsed w s₂).bind recvBodyStage_parsed).block.input
  change (parseHeadersStage w s₂).bind recvBodyStage = .ok s' at done
  rw [done] at left
  exact Nat.lt_of_le_of_lt left (Nat.lt_of_lt_of_le used bound)

/-- A round that finishes a request leaves less to do. -/
theorem readBlock_depth {w : World} {s : Conn} (done : (readBlock w s).finished) :
    (readBlock w s).input < s.depth := by
  have bound := (readBlock_block w s).input
  unfold Conn.depth
  split
  next fresh =>
    unfold readBlock at done ⊢
    -- Only a block that came to its analysis can finish, and it has used up a line.
    cases stages : toAnalysis w s with
    | error s₁ => rw [stages] at done; exact absurd done (toAnalysis_finished stages fresh)
    | ok s₂ =>
      have used := toAnalysis_input fresh stages
      unfold endBlock
      dsimp only
      split
      · exact Nat.lt_of_le_of_lt (analyse_block w s₂).input used
      · exact used
  -- In another state the depth counts one more than the input.
  next => omega

theorem handleWrite_input (s : Conn) : (handleWrite s).input = s.input := by
  unfold handleWrite
  split <;> rfl

theorem flush_input (s : Conn) : (flush s).input = s.input := by
  refine flush_cases s ?stays ?writes
  case stays => rfl
  case writes => exact fun _ => handleWrite_input s

theorem handleWrite_state (s : Conn) : (handleWrite s).http.state_ = s.http.state_ := by
  unfold handleWrite
  split <;> rfl

theorem flush_finished {s : Conn} (done : (flush s).finished) : s.finished := by
  revert done
  refine flush_cases s ?stays ?writes
  case stays => exact id
  case writes => exact fun alive done => ⟨alive, (handleWrite_state s).symm.trans done.2⟩

theorem reset_depth (s : Conn) : (reset s).depth = s.input := by
  unfold reset seperateTimer Conn.depth
  repeat' split
  all_goals first | rfl | contradiction

/-- A deeper bound gives the same result. -/
theorem handleReadFrom_enough {w : World} {depth : Nat} {s : Conn} (enough : s.depth < depth) :
    handleReadFrom w (depth + 1) s = handleReadFrom w depth s := by
  induction depth generalizing s with
  | zero => omega
  | succ depth ih =>
    rw [handleReadFrom, handleReadFrom]
    dsimp only
    split
    next done =>
      split
      next =>
        apply ih
        -- The round has used up a line, so the bound also holds for the rest.
        have less := readBlock_depth (flush_finished done)
        rw [reset_depth, flush_input]
        omega
      next => rfl
    next => rfl

theorem handleReadFrom_deep {w : World} {depth : Nat} {s : Conn} (enough : s.depth < depth) :
    handleReadFrom w depth s = handleRead w s := by
  -- All bounds above the depth give the same result.
  have all (extra : Nat) : handleReadFrom w (s.depth + 1 + extra) s =
      handleReadFrom w (s.depth + 1) s := by
    induction extra with
    | zero => rfl
    | succ extra ih =>
      have deep : s.depth < s.depth + 1 + extra := by omega
      rw [← ih]
      exact handleReadFrom_enough deep
  have bound : s.depth < s.input + 2 := by unfold Conn.depth; split <;> omega
  obtain ⟨e₁, rfl⟩ := Nat.exists_eq_add_of_lt enough
  obtain ⟨e₂, h₂⟩ := Nat.exists_eq_add_of_lt bound
  unfold handleRead
  rw [h₂, Nat.add_right_comm, Nat.add_right_comm s.depth e₂, all, all]

/-- `handleRead` is the recursive function the source defines: the bound on the depth
is never met. -/
theorem handleRead_eq (w : World) (s : Conn) :
    handleRead w s =
      let s := flush (readBlock w s)
      if s.finished then
        let s := reset s
        if s.continues then handleRead w s else s
      else rearm s := by
  have bound : s.depth < s.input + 2 := by unfold Conn.depth; split <;> omega
  have more := handleReadFrom_deep (w := w) (Nat.lt_succ_of_lt bound)
  rw [← more, handleReadFrom]
  dsimp only
  split
  next done =>
    split
    next =>
      apply handleReadFrom_deep
      have less := readBlock_depth (flush_finished done)
      rw [reset_depth, flush_input]
      omega
    next => rfl
  next => rfl

theorem reset_input (s : Conn) : (reset s).input = s.input := by
  unfold reset seperateTimer Conn.input
  split <;> rfl

theorem rearm_input (s : Conn) : (rearm s).input = s.input := by
  obtain ⟨events, rearmed⟩ := rearm_events s
  rw [rearmed]
  rfl

/-- Rounds one after another: what the last round does, and what a round adds to the
rounds behind it. -/
theorem handleRead_induct {w : World} {motive : Conn → Conn → Prop}
    (waits : ∀ s, ¬(flush (readBlock w s)).finished → motive s (rearm (flush (readBlock w s))))
    (ends : ∀ s, (flush (readBlock w s)).finished → ¬(reset (flush (readBlock w s))).continues →
      motive s (reset (flush (readBlock w s))))
    (again : ∀ s t, (flush (readBlock w s)).finished → (reset (flush (readBlock w s))).continues →
      motive (reset (flush (readBlock w s))) t → motive s t)
    (s : Conn) : motive s (handleRead w s) := by
  induction bound : s.depth using Nat.strong_induction_on generalizing s with
  | _ depth ih =>
    rw [handleRead_eq]
    dsimp only
    split
    next done =>
      split
      next more =>
        -- The induction is on the depth, which every further round makes smaller.
        refine again s _ done more (ih _ ?_ _ rfl)
        have less := readBlock_depth (flush_finished done)
        rw [reset_depth, flush_input]
        omega
      next last => exact ends s done last
    next pending => exact waits s pending

/-- No handler adds to the input. -/
theorem handleRead_input (w : World) (s : Conn) : (handleRead w s).input ≤ s.input := by
  have round (s : Conn) : (flush (readBlock w s)).input ≤ s.input := by
    rw [flush_input]
    exact (readBlock_block w s).input
  apply handleRead_induct (motive := fun s t => t.input ≤ s.input)
  · intro s _
    rw [rearm_input]
    exact round s
  · intro s _ _
    rw [reset_input]
    exact round s
  · intro s t _ _ rest
    rw [reset_input] at rest
    exact Nat.le_trans rest (round s)

end LightAgent

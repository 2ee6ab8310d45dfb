import LightAgent.HttpData.HalfClose

/-!
# What an earlier request leaves behind

A connection that has answered all its requests, and a fresh one, are given the same events.
They run abreast: each step writes the same bytes and comes to the same decisions, but for
`keepAlive_`, which no step clears.
-/
namespace LightAgent

open Library

/-- Where two connections stood when they began to run abreast, and whether the one with a
history had been asked to stay. -/
structure Base where
  sent : Bytes
  sent' : Bytes
  served : Nat
  served' : Nat
  keepAlive_ : Bool

/-- The worlds answer alike from these requests on. -/
structure World.Agree (w w' : World) (served served' : Nat) : Prop where
  outside : w'.outside = w.outside
  fs : ∀ k, w'.fs (served' + k) = w.fs (served + k)
  gateway : ∀ k, w'.gateway (served' + k) = w.gateway (served + k)

/-- The members and the output agree. The channel, the timer link and the name of the connection
are its own, and so are method and file name before the request line is read. -/
structure Twin (base : Base) (s t : Conn) : Prop where
  inBuffer_ : t.http.inBuffer_ = s.http.inBuffer_
  outBuffer_ : t.http.outBuffer_ = s.http.outBuffer_
  error_ : t.http.error_ = s.http.error_
  connectionState_ : t.http.connectionState_ = s.http.connectionState_
  nowReadPos_ : t.http.nowReadPos_ = s.http.nowReadPos_
  state_ : t.http.state_ = s.http.state_
  hState_ : t.http.hState_ = s.http.hState_
  headers_ : t.http.headers_ = s.http.headers_
  request : s.http.state_ ≠ .parseUri →
    t.http.method_ = s.http.method_ ∧ t.http.fileName_ = s.http.fileName_
  keepAlive_ : s.http.keepAlive_ = (base.keepAlive_ || t.http.keepAlive_)
  sent : ∃ text, s.wire.sent = base.sent ++ text ∧ t.wire.sent = base.sent' ++ text
  served : ∃ k, s.wire.served = base.served + k ∧ t.wire.served = base.served' + k

/-- In the course of a handler the events and the kernel agree as well. -/
structure Abreast (base : Base) (s t : Conn) : Prop where
  twin : Twin base s t
  events_ : t.http.channel_.events_ = s.http.channel_.events_
  revents_ : t.http.channel_.revents_ = s.http.channel_.revents_
  reads : t.wire.reads = s.wire.reads
  writes : t.wire.writes = s.wire.writes

variable {base : Base} {w w' : World}

/-! ### The stages -/

theorem Abreast.writeRaw {s t : Conn} (abreast : Abreast base s t) (buff : Bytes) :
    Abreast base (s.writeRaw buff) (t.writeRaw buff) := by
  obtain ⟨text, sent, sent'⟩ := abreast.twin.sent
  have same : writenRaw buff t.wire.writes = writenRaw buff s.wire.writes := by
    rw [abreast.writes]
  refine ⟨{ abreast.twin with sent := ⟨text ++ (writenRaw buff s.wire.writes).accepted, ?_, ?_⟩ },
    abreast.events_, abreast.revents_, abreast.reads, congrArg WriteLoop.rest same⟩
  · unfold Conn.writeRaw
    dsimp only
    rw [sent, List.append_assoc]
  · unfold Conn.writeRaw
    dsimp only
    rw [same, sent', List.append_assoc]

theorem Abreast.handleError {s t : Conn} (abreast : Abreast base s t) (err_num : Nat)
    (msg : Bytes) : Abreast base (handleError s err_num msg) (handleError t err_num msg) :=
  (abreast.writeRaw _).writeRaw _

/-- Both stages go on, or both stop. -/
inductive AbreastOutcome (base : Base) : Except Conn Conn → Except Conn Conn → Prop
  | ok {s t : Conn} : Abreast base s t → AbreastOutcome base (.ok s) (.ok t)
  | error {s t : Conn} : Abreast base s t → AbreastOutcome base (.error s) (.error t)

theorem AbreastOutcome.bind {r r' : Except Conn Conn} (first : AbreastOutcome base r r')
    {next next' : Conn → Except Conn Conn}
    (after : ∀ s t, Abreast base s t → AbreastOutcome base (next s) (next' t)) :
    AbreastOutcome base (r.bind next) (r'.bind next') := by
  cases first with
  | ok abreast => exact after _ _ abreast
  | error abreast => exact .error abreast

theorem Abreast.badRequest {s t : Conn} (abreast : Abreast base s t) (msg : Bytes) :
    AbreastOutcome base (badRequest s msg) (badRequest t msg) := by
  have failed : Abreast base (s.setHttp { s.http with error_ := true })
      (t.setHttp { t.http with error_ := true }) :=
    ⟨{ abreast.twin with error_ := rfl }, abreast.events_, abreast.revents_, abreast.reads,
      abreast.writes⟩
  exact .error (failed.handleError _ _)

theorem Abreast.readStage {s t : Conn} (abreast : Abreast base s t) :
    AbreastOutcome base (readStage s) (readStage t) := by
  have twin := abreast.twin
  have same : readn t.http.inBuffer_ t.wire.reads = readn s.http.inBuffer_ s.wire.reads := by
    rw [twin.inBuffer_, abreast.reads]
  have read (inBuffer : Bytes) (rest : List ReadResult) {state state' : ConnectionState}
      (agree : state' = state) :
      Abreast base (readInto s inBuffer rest state) (readInto t inBuffer rest state') :=
    ⟨{ twin with inBuffer_ := rfl, connectionState_ := agree }, abreast.events_, abreast.revents_,
      rfl, abreast.writes⟩
  unfold LightAgent.readStage
  rw [same]
  generalize readn s.http.inBuffer_ s.wire.reads = result
  -- Both sides take the same branch of each test.
  have goes {r r' : Except Conn Conn} {u u' : Except Conn Conn} (left : u = r) (right : u' = r')
      (outcome : AbreastOutcome base r r') : AbreastOutcome base u u' := left ▸ right ▸ outcome
  by_cases gone : s.http.connectionState_ = .disconnecting
  · exact goes (if_pos gone) (if_pos (twin.connectionState_.trans gone))
      (.error (read [] result.rest twin.connectionState_))
  have here : t.http.connectionState_ ≠ .disconnecting := twin.connectionState_ ▸ gone
  refine goes (if_neg gone) (if_neg here) ?_
  by_cases failed : result.read_num < 0
  · exact goes (if_pos failed) (if_pos failed)
      ((read result.inBuffer result.rest twin.connectionState_).badRequest _)
  refine goes (if_neg failed) (if_neg failed) ?_
  by_cases zero : result.zero = true
  · refine goes (if_pos zero) (if_pos zero) ?_
    have ends := read result.inBuffer result.rest (rfl : ConnectionState.disconnecting = _)
    by_cases nothing : result.read_num = 0
    · exact goes (if_pos nothing) (if_pos nothing) (.error ends)
    · exact goes (if_neg nothing) (if_neg nothing) (.ok ends)
  · exact goes (if_neg zero) (if_neg zero)
      (.ok (read result.inBuffer result.rest twin.connectionState_))

theorem Abreast.parseUriStage {s t : Conn} (abreast : Abreast base s t) :
    AbreastOutcome base (parseUriStage s) (parseUriStage t) := by
  have twin := abreast.twin
  unfold LightAgent.parseUriStage HttpData.parseURI
  by_cases state : s.http.state_ = .parseUri
  · have found : findFrom [CR] t.http.inBuffer_ t.http.nowReadPos_ =
        findFrom [CR] s.http.inBuffer_ s.http.nowReadPos_ := by
      rw [twin.inBuffer_, twin.nowReadPos_]
    rw [if_pos state, if_pos (twin.state_.trans state), found]
    cases findFrom [CR] s.http.inBuffer_ s.http.nowReadPos_ with
    | none => exact .error abreast
    | some pos =>
      dsimp only
      rw [twin.inBuffer_]
      -- A line that is taken sets method and name on both sides, whatever they were.
      rcases HttpData.parseLine_cases (s.http.inBuffer_.take pos) with
        ⟨method, version, file, eq⟩ | ⟨method, file, eq⟩
      · rw [eq, eq]
        exact .ok ⟨{ twin with inBuffer_ := rfl, state_ := rfl, request := fun _ => ⟨rfl, rfl⟩ },
          abreast.events_, abreast.revents_, abreast.reads, abreast.writes⟩
      · rw [eq, eq]
        apply Abreast.badRequest
        exact ⟨{ twin with inBuffer_ := rfl, request := fun other => absurd state other },
          abreast.events_, abreast.revents_, abreast.reads, abreast.writes⟩
  · rw [if_neg state, if_neg (twin.state_ ▸ state)]
    exact .ok abreast

theorem Abreast.parseHeadersStage (agree : World.Agree w w' base.served base.served') {s t : Conn}
    (abreast : Abreast base s t) :
    AbreastOutcome base (parseHeadersStage w s) (parseHeadersStage w' t) := by
  have twin := abreast.twin
  have scan := HttpData.parseHeaders_same w.outside twin.hState_ twin.inBuffer_ twin.headers_
  obtain ⟨_, _, _, _, frame⟩ := s.http.parseHeaders_frame w.outside
  unfold LightAgent.parseHeadersStage
  by_cases state : s.http.state_ = .parseHeaders
  · rw [if_pos state, if_pos (twin.state_.trans state), agree.outside, scan]
    -- Behind the request line the methods agree.
    obtain ⟨method, _⟩ := twin.request (by rw [state]; decide)
    cases result : s.http.parseHeaders w.outside with
    | mk h flag =>
      rw [result] at frame
      dsimp only at frame ⊢
      have scanned : Abreast base (s.setHttp h) (t.setHttp { t.http with
          hState_ := h.hState_, headers_ := h.headers_, inBuffer_ := h.inBuffer_ }) := by
        rw [frame]
        exact ⟨{ twin with inBuffer_ := rfl, hState_ := rfl, headers_ := rfl }, abreast.events_,
          abreast.revents_, abreast.reads, abreast.writes⟩
      have moved (next : ProcessState) : Abreast base (s.setHttp { h with state_ := next })
          (t.setHttp { t.http with hState_ := h.hState_, headers_ := h.headers_,
                                   inBuffer_ := h.inBuffer_, state_ := next }) :=
        ⟨{ scanned.twin with
            state_ := rfl
            request := fun _ => scanned.twin.request (by rw [frame]; exact state ▸ nofun) },
          scanned.events_, scanned.revents_, scanned.reads, scanned.writes⟩
      cases flag with
      | again => exact .error scanned
      | thrown => exact .error scanned
      | error => exact scanned.badRequest _
      | success =>
        have same : h.method_ = s.http.method_ := by rw [frame]
        dsimp only
        by_cases post : s.http.method_ = .post
        · rw [if_pos (same.trans post), if_pos (method.trans post)]
          exact .ok (moved .recvBody)
        · rw [if_neg (same ▸ post), if_neg (method ▸ post)]
          exact .ok (moved .analysis)
  · rw [if_neg state, if_neg (twin.state_ ▸ state)]
    exact .ok abreast

theorem Abreast.recvBodyStage {s t : Conn} (abreast : Abreast base s t) :
    AbreastOutcome base (recvBodyStage s) (recvBodyStage t) := by
  have twin := abreast.twin
  have length : t.http.getContentLength = s.http.getContentLength :=
    HttpData.getContentLength_congr twin.headers_
  unfold LightAgent.recvBodyStage
  by_cases state : s.http.state_ = .recvBody
  · rw [if_pos state, if_pos (twin.state_.trans state), length, twin.inBuffer_]
    have request := twin.request (by rw [state]; decide)
    repeat' split
    · exact abreast.badRequest _
    · exact .error abreast
    · exact .ok ⟨{ twin with state_ := rfl, request := fun _ => request }, abreast.events_,
        abreast.revents_, abreast.reads, abreast.writes⟩
  · rw [if_neg state, if_neg (twin.state_ ▸ state)]
    exact .ok abreast

theorem Abreast.toAnalysis (agree : World.Agree w w' base.served base.served') {s t : Conn}
    (abreast : Abreast base s t) : AbreastOutcome base (toAnalysis w s) (toAnalysis w' t) :=
  abreast.readStage.bind fun _ _ read => read.parseUriStage.bind fun _ _ line =>
    (line.parseHeadersStage agree).bind fun _ _ block => block.recvBodyStage

/-! ### The analysis -/

/-- Both requests are answered, or neither is. -/
def AbreastAnswer (base : Base) (p q : Conn × AnalysisState) : Prop :=
  Abreast base p.1 q.1 ∧ q.2 = p.2

theorem Abreast.answered {s t : Conn} (abreast : Abreast base s t) (flag : AnalysisState) :
    AbreastAnswer base (s, flag) (t, flag) := ⟨abreast, rfl⟩

/-- Connections at the same request. -/
structure AtRequest (base : Base) (s t : Conn) : Prop extends Abreast base s t where
  method_ : t.http.method_ = s.http.method_
  fileName_ : t.http.fileName_ = s.http.fileName_
  past : s.http.state_ ≠ .parseUri

theorem AtRequest.keepAlive {s t : Conn} (here : AtRequest base s t) :
    t.http.isKeepAliveRequested = s.http.isKeepAliveRequested :=
  HttpData.isKeepAliveRequested_congr here.twin.headers_

/-- The members a response changes. -/
theorem AtRequest.answer {s t : Conn} (here : AtRequest base s t)
    (inBuffer inBuffer' outBuffer outBuffer' : Bytes) (left : inBuffer' = inBuffer)
    (output : outBuffer' = outBuffer) : AtRequest base
      (s.setHttp { s.http with inBuffer_ := inBuffer, outBuffer_ := outBuffer,
                               keepAlive_ := s.http.keepAlive_ || s.http.isKeepAliveRequested })
      (t.setHttp { t.http with inBuffer_ := inBuffer', outBuffer_ := outBuffer',
                               keepAlive_ := t.http.keepAlive_ || t.http.isKeepAliveRequested }) where
  twin := { here.twin with
    inBuffer_ := left
    outBuffer_ := output
    -- The old flag stays on one side, and both add the same request to it.
    keepAlive_ := by
      unfold Conn.setHttp
      dsimp only
      rw [here.keepAlive, here.twin.keepAlive_, Bool.or_assoc] }
  events_ := here.events_
  revents_ := here.revents_
  reads := here.reads
  writes := here.writes
  method_ := here.method_
  fileName_ := here.fileName_
  past := here.past

theorem AtRequest.answerApiRequest (view : LightAgentGateway.View) {s t : Conn}
    (here : AtRequest base s t) (contentLength : Option Nat) (body : Bytes) :
    AbreastAnswer base (answerApiRequest view s contentLength body)
      (answerApiRequest view t contentLength body) := by
  have called (calls calls' : List LightAgentGateway.Request) : AtRequest base
      { s with wire := { s.wire with calls := calls } }
      { t with wire := { t.wire with calls := calls' } } :=
    ⟨⟨{ here.twin with }, here.events_, here.revents_, here.reads, here.writes⟩, here.method_,
      here.fileName_, here.past⟩
  -- The gateway is asked the same.
  have asked : LightAgentGateway.handle view
      ⟨toGatewayMethod t.http.method_, bytes "/" ++ t.http.fileName_, body⟩ =
        LightAgentGateway.handle view
      ⟨toGatewayMethod s.http.method_, bytes "/" ++ s.http.fileName_, body⟩ := by
    rw [here.method_, here.fileName_]
  unfold LightAgent.answerApiRequest
  dsimp only
  rw [asked]
  cases LightAgentGateway.handle view
      ⟨toGatewayMethod s.http.method_, bytes "/" ++ s.http.fileName_, body⟩ with
  | none => exact (called _ _).answered _
  | some response =>
    dsimp only
    refine ((called _ _).answer _ _ _ _ ?_ ?_).answered _
    · rw [here.twin.inBuffer_]
    · rw [here.twin.outBuffer_, here.keepAlive, here.method_]

theorem AtRequest.analysisApiRequest (view : LightAgentGateway.View) {s t : Conn}
    (here : AtRequest base s t) :
    AbreastAnswer base (analysisApiRequest view s) (analysisApiRequest view t) := by
  have length : t.http.getContentLength = s.http.getContentLength :=
    HttpData.getContentLength_congr here.twin.headers_
  unfold LightAgent.analysisApiRequest
  rw [here.method_, here.twin.inBuffer_, length]
  repeat' split
  · exact here.answered _
  · exact here.answered _
  · exact here.answerApiRequest _ _ _
  · exact here.answerApiRequest _ _ _

theorem Abreast.notFound {s t : Conn} (abreast : Abreast base s t) :
    AbreastAnswer base (notFound s) (notFound t) := by
  have cleared : Abreast base (s.setHttp { s.http with outBuffer_ := [] })
      (t.setHttp { t.http with outBuffer_ := [] }) :=
    ⟨{ abreast.twin with outBuffer_ := rfl }, abreast.events_, abreast.revents_, abreast.reads,
      abreast.writes⟩
  exact (cleared.handleError _ _).answered _

theorem AtRequest.analysisStaticRequest (fs : Bytes → Option FileStat) {s t : Conn}
    (here : AtRequest base s t) :
    AbreastAnswer base (analysisStaticRequest fs s) (analysisStaticRequest fs t) := by
  have goes {r r' u u' : Conn × AnalysisState} (left : u = r) (right : u' = r')
      (answer : AbreastAnswer base r r') : AbreastAnswer base u u' := left ▸ right ▸ answer
  have name := here.fileName_
  unfold LightAgent.analysisStaticRequest
  dsimp only
  by_cases hello : s.http.fileName_ = bytes "hello"
  · exact goes (if_pos hello) (if_pos (name.trans hello))
      ((here.answer _ _ _ _ here.twin.inBuffer_ rfl).answered _)
  refine goes (if_neg hello) (if_neg (name ▸ hello)) ?_
  by_cases icon : s.http.fileName_ = bytes "favicon.ico"
  · refine goes (if_pos icon) (if_pos (name.trans icon))
      ((here.answer _ _ _ _ here.twin.inBuffer_ ?_).answered _)
    rw [here.twin.outBuffer_, here.keepAlive]
  refine goes (if_neg icon) (if_neg (name ▸ icon)) ?_
  -- From here on the flag is set before the file is looked for.
  have unanswered := here.answer _ _ _ _ here.twin.inBuffer_ here.twin.outBuffer_
  rw [show cStr t.http.fileName_ = cStr s.http.fileName_ by rw [name]]
  cases fs (cStr s.http.fileName_) with
  | none => exact (unanswered.handleError _ _).answered _
  | some sbuf =>
    dsimp only
    have headed := here.answer _ _
      (s.http.outBuffer_ ++ fileHeader s.http.isKeepAliveRequested s.http.fileName_ sbuf.st_size)
      (t.http.outBuffer_ ++ fileHeader t.http.isKeepAliveRequested t.http.fileName_ sbuf.st_size)
      here.twin.inBuffer_ (by rw [here.twin.outBuffer_, here.keepAlive, name])
    by_cases head : s.http.method_ = .head
    · exact goes (if_pos head) (if_pos (here.method_.trans head)) (headed.answered _)
    refine goes (if_neg head) (if_neg (here.method_ ▸ head)) ?_
    split
    · exact headed.notFound
    · cases sbuf.mapped with
      | none => exact headed.notFound
      | some src =>
        refine (here.answer _ _ _ _ here.twin.inBuffer_ ?_).answered _
        rw [here.twin.outBuffer_, here.keepAlive, name]

theorem AtRequest.analysisRequest (agree : World.Agree w w' base.served base.served') {s t : Conn}
    (here : AtRequest base s t) :
    AbreastAnswer base (analysisRequest w s) (analysisRequest w' t) := by
  obtain ⟨k, served, served'⟩ := here.twin.served
  have counted : AtRequest base { s with wire := { s.wire with served := s.wire.served + 1 } }
      { t with wire := { t.wire with served := t.wire.served + 1 } } := by
    refine ⟨⟨{ here.twin with served := ⟨k + 1, ?_, ?_⟩ }, here.events_, here.revents_, here.reads,
      here.writes⟩, here.method_, here.fileName_, here.past⟩
    · rw [← Nat.add_assoc, ← served]
    · rw [← Nat.add_assoc, ← served']
  -- Both have served as many requests since, so the worlds agree at this one.
  have files : w'.fs t.wire.served = w.fs s.wire.served := by rw [served, served', agree.fs]
  have gateway : w'.gateway t.wire.served = w.gateway s.wire.served := by
    rw [served, served', agree.gateway]
  by_cases api : (bytes "api/").isPrefixOf s.http.fileName_ = true
  · rw [analysisRequest_api w api, analysisRequest_api w' (here.fileName_ ▸ api), gateway]
    exact counted.analysisApiRequest _
  have api' : ¬(bytes "api/").isPrefixOf t.http.fileName_ = true := here.fileName_ ▸ api
  by_cases post : s.http.method_ = .post
  · rw [analysisRequest_post w api post, analysisRequest_post w' api' (here.method_.trans post)]
    exact counted.answered _
  · have post' : t.http.method_ ≠ .post := here.method_ ▸ post
    rw [analysisRequest_static w api post, analysisRequest_static w' api' post', files]
    exact counted.analysisStaticRequest _

theorem AtRequest.analyse (agree : World.Agree w w' base.served base.served') {s t : Conn}
    (here : AtRequest base s t) : Abreast base (analyse w s) (analyse w' t) := by
  obtain ⟨⟨_, _, _, _, http⟩, _, _⟩ := analysisRequest_frame w s
  have kept : (LightAgent.analysisRequest w s).1.http.state_ ≠ .parseUri := by
    rw [http]
    exact here.past
  have answer := here.analysisRequest agree
  unfold LightAgent.analyse
  generalize LightAgent.analysisRequest w s = p at answer kept
  generalize LightAgent.analysisRequest w' t = q at answer
  obtain ⟨s', flag⟩ := p
  obtain ⟨t', flag'⟩ := q
  obtain ⟨abreast, rfl⟩ := answer
  -- The state is still past the request line, so the request is the same.
  have request := abreast.twin.request kept
  cases flag' with
  | success => exact ⟨{ abreast.twin with state_ := rfl, request := fun _ => request },
      abreast.events_, abreast.revents_, abreast.reads, abreast.writes⟩
  | error => exact ⟨{ abreast.twin with error_ := rfl }, abreast.events_, abreast.revents_,
      abreast.reads, abreast.writes⟩

theorem Abreast.readBlock (agree : World.Agree w w' base.served base.served') {s t : Conn}
    (abreast : Abreast base s t) : Abreast base (readBlock w s) (readBlock w' t) := by
  have stages := abreast.toAnalysis agree
  unfold LightAgent.readBlock
  generalize LightAgent.toAnalysis w s = r at stages
  generalize LightAgent.toAnalysis w' t = r' at stages
  cases stages with
  | error stopped => exact stopped
  | @ok s₁ t₁ passed =>
    unfold endBlock
    dsimp only
    by_cases state : s₁.http.state_ = .analysis
    · rw [if_pos state, if_pos (passed.twin.state_.trans state)]
      -- A state of analysis is past the request line.
      have past : s₁.http.state_ ≠ .parseUri := by rw [state]; decide
      obtain ⟨method, file⟩ := passed.twin.request past
      exact AtRequest.analyse agree ⟨passed, method, file, past⟩
    · rw [if_neg state, if_neg (passed.twin.state_ ▸ state)]
      exact passed

/-! ### The handlers -/

theorem Abreast.handleWrite {s t : Conn} (abreast : Abreast base s t) :
    Abreast base (handleWrite s) (handleWrite t) := by
  have twin := abreast.twin
  obtain ⟨text, sent, sent'⟩ := twin.sent
  unfold LightAgent.handleWrite
  by_cases active : (!s.http.error_) = true ∧ s.http.connectionState_ ≠ .disconnected
  · have active' : (!t.http.error_) = true ∧ t.http.connectionState_ ≠ .disconnected := by
      rw [twin.error_, twin.connectionState_]
      exact active
    rw [if_pos active, if_pos active', twin.outBuffer_, abreast.writes]
    generalize writen s.http.outBuffer_ s.wire.writes = out
    -- Both write the same bytes to kernels that take the same part of them.
    refine ⟨{ twin with
      outBuffer_ := rfl
      error_ := congrArg (· || out.ret.isNone) twin.error_
      sent := ⟨text ++ out.accepted, ?_, ?_⟩ }, ?_, abreast.revents_, abreast.reads, rfl⟩
    · rw [← List.append_assoc, ← sent]
      rfl
    · rw [← List.append_assoc, ← sent']
      rfl
    · unfold afterWrite
      dsimp only
      rw [abreast.events_]
  · have inactive : ¬((!t.http.error_) = true ∧ t.http.connectionState_ ≠ .disconnected) := by
      rw [twin.error_, twin.connectionState_]
      exact active
    rw [if_neg active, if_neg inactive]
    exact abreast

theorem Abreast.flush {s t : Conn} (abreast : Abreast base s t) :
    Abreast base (flush s) (flush t) := by
  unfold LightAgent.flush
  rw [abreast.twin.error_, abreast.twin.outBuffer_]
  repeat' split
  · exact abreast
  · exact abreast.handleWrite
  · exact abreast

theorem Abreast.seperateTimer {s t : Conn} (abreast : Abreast base s t) :
    Abreast base (seperateTimer s) (seperateTimer t) := by
  have wire := seperateTimer_wire s
  have wire' := seperateTimer_wire t
  obtain ⟨timer, http⟩ := seperateTimer_http s
  obtain ⟨timer', http'⟩ := seperateTimer_http t
  generalize LightAgent.seperateTimer s = u at wire http
  generalize LightAgent.seperateTimer t = v at wire' http'
  obtain ⟨_, _, _⟩ := u
  obtain ⟨_, _, _⟩ := v
  cases http
  cases http'
  cases wire
  cases wire'
  exact ⟨{ abreast.twin with }, abreast.events_, abreast.revents_, abreast.reads, abreast.writes⟩

theorem Abreast.reset {s t : Conn} (abreast : Abreast base s t) :
    Abreast base (reset s) (reset t) := by
  apply Abreast.seperateTimer
  exact ⟨{ abreast.twin with
      nowReadPos_ := rfl
      state_ := rfl
      hState_ := rfl
      headers_ := rfl
      request := fun other => absurd rfl other },
    abreast.events_, abreast.revents_, abreast.reads, abreast.writes⟩

theorem Abreast.rearm {s t : Conn} (abreast : Abreast base s t) :
    Abreast base (rearm s) (rearm t) := by
  unfold LightAgent.rearm
  rw [abreast.twin.error_, abreast.twin.connectionState_]
  split
  · refine ⟨{ abreast.twin with }, ?_, abreast.revents_, abreast.reads, abreast.writes⟩
    unfold Conn.setEvents
    dsimp only
    rw [abreast.events_]
  · exact abreast

theorem Abreast.handleRead (agree : World.Agree w w' base.served base.served') {s t : Conn}
    (abreast : Abreast base s t) : Abreast base (handleRead w s) (handleRead w' t) := by
  have depths : t.input = s.input := by
    unfold Conn.input
    rw [abreast.twin.inBuffer_, abreast.reads]
  unfold LightAgent.handleRead
  rw [depths]
  generalize s.input + 2 = depth
  clear depths
  induction depth generalizing s t with
  | zero => exact abreast
  | succ depth ih =>
    have round := (abreast.readBlock agree).flush
    rw [handleReadFrom, handleReadFrom]
    dsimp only
    -- Both go on, end or wait together.
    have finished : (LightAgent.flush (LightAgent.readBlock w' t)).finished ↔
        (LightAgent.flush (LightAgent.readBlock w s)).finished := by
      unfold Conn.finished
      rw [round.twin.error_, round.twin.state_]
    have continues : (LightAgent.reset (LightAgent.flush (LightAgent.readBlock w' t))).continues ↔
        (LightAgent.reset (LightAgent.flush (LightAgent.readBlock w s))).continues := by
      unfold Conn.continues
      rw [round.reset.twin.inBuffer_, round.reset.twin.connectionState_]
    simp only [finished, continues]
    repeat' split
    · exact ih round.reset
    · exact round.reset
    · exact round.rearm

theorem Abreast.dispatch (agree : World.Agree w w' base.served base.served') {s t : Conn}
    (abreast : Abreast base s t) : Abreast base (dispatch w s) (dispatch w' t) := by
  unfold LightAgent.dispatch
  dsimp only
  rw [abreast.revents_]
  have read : Abreast base
      (if s.http.channel_.revents_.has (EPOLLIN ||| EPOLLPRI ||| EPOLLRDHUP) then
        LightAgent.handleRead w s else s)
      (if s.http.channel_.revents_.has (EPOLLIN ||| EPOLLPRI ||| EPOLLRDHUP) then
        LightAgent.handleRead w' t else t) := by
    split
    · exact abreast.handleRead agree
    · exact abreast
  split
  · exact read.handleWrite
  · exact read

/-! ### The exits of handleConn -/

/-- The exit of a connection that was asked to stay before. -/
def ConnExit.kept (keepAlive : Bool) : ConnExit → ConnExit
  | .rearms events timeout =>
    .rearms events (if keepAlive then DEFAULT_KEEP_ALIVE_TIME else timeout)
  | exit => exit

theorem ConnExit.kept_false (exit : ConnExit) : exit.kept false = exit := by
  cases exit <;> rfl

/-- Both leave `handleConn` alike, but for the timeout of one that was asked to stay before. -/
theorem Abreast.connExit {s t : Conn} (abreast : Abreast base s t) :
    s.http.connExit = t.http.connExit.kept base.keepAlive_ := by
  have twin := abreast.twin
  unfold HttpData.connExit
  rw [twin.error_, twin.connectionState_, abreast.events_, twin.keepAlive_]
  dsimp only
  cases base.keepAlive_ with
  | false => exact (ConnExit.kept_false _).symm
  | true =>
    simp only [Bool.true_or, if_true]
    repeat' split
    all_goals rfl

/-- Where the handlers of an event leave `handleConn`, if they come to it. -/
def eventExit (w : World) (s : Conn) (a : Arrival) (revents : Events) : Option ConnExit :=
  if returnsEarly revents then none
  else some (seperateTimer (dispatch w ((s.meets a revents).setEvents 0))).http.connExit

/-- The channel, the timer link and the poller are each connection's own. -/
theorem Twin.elsewhere {s t u v : Conn} (twin : Twin base s t)
    (http : ∃ channel timer, u.http = { s.http with channel_ := channel, timer_ := timer })
    (http' : ∃ channel timer, v.http = { t.http with channel_ := channel, timer_ := timer })
    (wire : u.wire = s.wire) (wire' : v.wire = t.wire) : Twin base u v := by
  obtain ⟨channel, timer, http⟩ := http
  obtain ⟨channel', timer', http'⟩ := http'
  obtain ⟨_, _, _⟩ := u
  obtain ⟨_, _, _⟩ := v
  cases http
  cases http'
  cases wire
  cases wire'
  exact { twin with }

theorem Twin.handleClose {s t : Conn} (twin : Twin base s t) :
    Twin base (handleClose s) (handleClose t) := by
  have closed : Twin base (s.setHttp { s.http with connectionState_ := .disconnected })
      (t.setHttp { t.http with connectionState_ := .disconnected }) :=
    { twin with connectionState_ := rfl }
  unfold LightAgent.handleClose
  exact closed.elsewhere ⟨_, _, epoll_del_http _⟩ ⟨_, _, epoll_del_http _⟩ (epoll_del_wire _)
    (epoll_del_wire _)

theorem Abreast.handleConn {s t : Conn} (abreast : Abreast base s t) :
    Twin base (handleConn s) (handleConn t) := by
  have exit := abreast.seperateTimer.connExit
  have twin := abreast.seperateTimer.twin
  cases leaves : (LightAgent.seperateTimer t).http.connExit with
  | rearms events timeout =>
    rw [leaves] at exit
    rw [handleConn_rearms exit, handleConn_rearms leaves]
    have told : Twin base ((LightAgent.seperateTimer s).setEvents events)
        ((LightAgent.seperateTimer t).setEvents events) := { twin with }
    exact told.elsewhere (epoll_mod_http _ _) (epoll_mod_http _ _) (epoll_mod_wire _ _)
      (epoll_mod_wire _ _)
  | strands =>
    rw [leaves] at exit
    rw [handleConn_strands exit, handleConn_strands leaves]
    exact { twin with }
  | closes =>
    rw [leaves] at exit
    rw [handleConn_closes exit, handleConn_closes leaves]
    exact twin.handleClose

/-! ### Events -/

/-- An event meets both connections alike. -/
theorem Twin.meets {s t : Conn} (twin : Twin base s t) (a : Arrival) (revents : Events) :
    Abreast base ((s.meets a revents).setEvents 0) ((t.meets a revents).setEvents 0) :=
  ⟨{ twin with }, rfl, rfl, rfl, rfl⟩

theorem Twin.handleEvents (agree : World.Agree w w' base.served base.served') {s t : Conn}
    (twin : Twin base s t) (a : Arrival) (revents : Events) :
    Twin base (handleEvents w (s.meets a revents)) (handleEvents w' (t.meets a revents)) ∧
      eventExit w s a revents = (eventExit w' t a revents).map (·.kept base.keepAlive_) := by
  have met := twin.meets a revents
  have done := met.dispatch agree
  unfold LightAgent.handleEvents eventExit
  dsimp only
  rw [met.revents_]
  change Twin base (if returnsEarly revents = true then _ else _)
    (if returnsEarly revents = true then _ else _) ∧ _
  by_cases early : returnsEarly revents = true
  · simp only [if_pos early]
    exact ⟨met.twin, rfl⟩
  · simp only [if_neg early]
    exact ⟨done.handleConn, congrArg some done.seperateTimer.connExit⟩

/-- Events one after another; a connection that is closed gets no more of them. -/
def attend (w : World) (s : Conn) (es : List (Arrival × Events)) : Conn :=
  es.foldl (fun s e => if s.http.connectionState_ = .disconnected then s
    else handleEvents w (s.meets e.1 e.2)) s

theorem Twin.attend (agree : World.Agree w w' base.served base.served') {s t : Conn}
    (twin : Twin base s t) (es : List (Arrival × Events)) :
    Twin base (attend w s es) (attend w' t es) := by
  induction es generalizing s t with
  | nil => exact twin
  | cons e es ih =>
    refine ih ?_
    dsimp only
    by_cases gone : s.http.connectionState_ = .disconnected
    · rw [if_pos gone, if_pos (twin.connectionState_.trans gone)]
      exact twin
    · rw [if_neg gone, if_neg (twin.connectionState_ ▸ gone)]
      exact (twin.handleEvents agree e.1 e.2).1

/-! ### A connection at rest -/

/-- Every request so far is answered, and nothing of a next one has come. -/
structure Rested (s : Conn) : Prop where
  error_ : s.http.error_ = false
  connectionState_ : s.http.connectionState_ = .connected
  state_ : s.http.state_ = .parseUri
  hState_ : s.http.hState_ = .start
  nowReadPos_ : s.http.nowReadPos_ = 0
  headers_ : s.http.headers_ = .empty
  inBuffer_ : s.http.inBuffer_ = []
  outBuffer_ : s.http.outBuffer_ = []

/-- Connections at rest are twins, when the second has not been asked to stay. -/
theorem Rested.twin {s t : Conn} (rested : Rested s) (rested' : Rested t)
    (unkept : t.http.keepAlive_ = false) :
    Twin ⟨s.wire.sent, t.wire.sent, s.wire.served, t.wire.served, s.http.keepAlive_⟩ s t where
  inBuffer_ := rested'.inBuffer_.trans rested.inBuffer_.symm
  outBuffer_ := rested'.outBuffer_.trans rested.outBuffer_.symm
  error_ := rested'.error_.trans rested.error_.symm
  connectionState_ := rested'.connectionState_.trans rested.connectionState_.symm
  nowReadPos_ := rested'.nowReadPos_.trans rested.nowReadPos_.symm
  state_ := rested'.state_.trans rested.state_.symm
  hState_ := rested'.hState_.trans rested.hState_.symm
  headers_ := rested'.headers_.trans rested.headers_.symm
  request other := absurd rested.state_ other
  keepAlive_ := by rw [unkept, Bool.or_false]
  sent := ⟨[], (List.append_nil _).symm, (List.append_nil _).symm⟩
  served := ⟨0, rfl, rfl⟩

theorem accepted_rested (this : ConnId) (loop : LoopId) (connfd : Fd) (now : Timeval)
    (epollCtl : Bool) (epoll : Epoll) :
    Rested (accepted this loop connfd now epollCtl epoll) ∧
      (accepted this loop connfd now epollCtl epoll).http.keepAlive_ = false ∧
      (accepted this loop connfd now epollCtl epoll).wire.sent = [] := by
  have quiet : Quiet { Wire.idle with now := now, epollCtl := epollCtl } := ⟨rfl, nofun⟩
  have alike := newEvent_alike (s := ⟨.new this loop connfd,
    { Wire.idle with now := now, epollCtl := epollCtl }, epoll⟩) quiet
  obtain ⟨channel, timer, http⟩ := alike.http
  unfold accepted
  refine ⟨?_, by rw [http]; rfl, alike.sent⟩
  constructor <;> rw [http] <;> rfl

/-! ### What the stages remember -/

/-- Where the parser is at the request line, it has been there and scanned no header since. -/
structure SameLine (s t : Conn) : Prop where
  nowReadPos_ : t.http.nowReadPos_ = s.http.nowReadPos_
  line : t.http.state_ = .parseUri → s.http.state_ = .parseUri ∧
    t.http.hState_ = s.http.hState_ ∧ t.http.headers_ = s.http.headers_

theorem SameLine.refl (s : Conn) : SameLine s s := ⟨rfl, fun state => ⟨state, rfl, rfl⟩⟩

theorem SameLine.trans {s t u : Conn} (first : SameLine s t) (second : SameLine t u) :
    SameLine s u where
  nowReadPos_ := second.nowReadPos_.trans first.nowReadPos_
  line state := by
    obtain ⟨state', scan', headers'⟩ := second.line state
    obtain ⟨state, scan, headers⟩ := first.line state'
    exact ⟨state, scan'.trans scan, headers'.trans headers⟩

theorem SameLine.bind {s : Conn} {r : Except Conn Conn} (first : SameLine s (outcome r))
    {stage : Conn → Except Conn Conn} (next : ∀ s', SameLine s' (outcome (stage s'))) :
    SameLine s (outcome (r.bind stage)) := by
  cases r with
  | ok s' => exact first.trans (next s')
  | error s' => exact first

theorem readStage_sameLine (s : Conn) : SameLine s (outcome (readStage s)) := by
  have read := readStage_outcome s
  generalize readStage s = r at read
  cases read with
  | goesOn => exact ⟨rfl, fun state => ⟨state, rfl, rfl⟩⟩
  | stops => exact ⟨rfl, fun state => ⟨state, rfl, rfl⟩⟩
  | fails => exact ⟨rfl, fun state => ⟨state, rfl, rfl⟩⟩

theorem parseUriStage_sameLine (s : Conn) : SameLine s (outcome (parseUriStage s)) := by
  unfold parseUriStage HttpData.parseURI
  split
  · cases findFrom [CR] s.http.inBuffer_ s.http.nowReadPos_ with
    | none => exact ⟨rfl, fun state => ⟨state, rfl, rfl⟩⟩
    | some pos =>
      dsimp only
      rcases HttpData.parseLine_cases (s.http.inBuffer_.take pos) with
        ⟨method, version, file, eq⟩ | ⟨method, file, eq⟩
      · rw [eq]
        exact ⟨rfl, nofun⟩
      · rw [eq]
        exact ⟨rfl, fun state => ⟨state, rfl, rfl⟩⟩
  · exact .refl s

theorem parseHeadersStage_sameLine (w : World) (s : Conn) :
    SameLine s (outcome (parseHeadersStage w s)) := by
  obtain ⟨_, _, _, _, frame⟩ := s.http.parseHeaders_frame w.outside
  unfold parseHeadersStage
  split
  next state =>
    -- Whatever the scan has done, the parser is past the request line.
    have past (line : s.http.state_ = .parseUri) : False := nomatch state.symm.trans line
    cases result : s.http.parseHeaders w.outside with
    | mk h flag =>
      rw [result] at frame
      dsimp only at frame ⊢
      rw [frame]
      cases flag with
      | again => exact ⟨rfl, fun line => (past line).elim⟩
      | thrown => exact ⟨rfl, fun line => (past line).elim⟩
      | error => exact ⟨rfl, fun line => (past line).elim⟩
      | success =>
        dsimp only
        split
        · exact ⟨rfl, nofun⟩
        · exact ⟨rfl, nofun⟩
  next => exact .refl s

theorem recvBodyStage_sameLine (s : Conn) : SameLine s (outcome (recvBodyStage s)) := by
  unfold recvBodyStage
  repeat' split
  · exact ⟨rfl, fun state => ⟨state, rfl, rfl⟩⟩
  · exact .refl s
  · exact ⟨rfl, nofun⟩
  · exact .refl s

theorem toAnalysis_sameLine (w : World) (s : Conn) : SameLine s (outcome (toAnalysis w s)) :=
  (readStage_sameLine s).bind fun s => (parseUriStage_sameLine s).bind fun s =>
    (parseHeadersStage_sameLine w s).bind recvBodyStage_sameLine

theorem analyse_sameLine (w : World) (s : Conn) : SameLine s (analyse w s) := by
  obtain ⟨⟨_, _, _, _, http⟩, _, _⟩ := analysisRequest_frame w s
  rcases analyse_cases w s with ⟨_, done⟩ | ⟨_, done⟩
  · rw [done, http]
    exact ⟨rfl, nofun⟩
  · rw [done, http]
    exact ⟨rfl, fun state => ⟨state, rfl, rfl⟩⟩

theorem readBlock_sameLine (w : World) (s : Conn) : SameLine s (readBlock w s) := by
  have stages := toAnalysis_sameLine w s
  unfold readBlock
  generalize toAnalysis w s = r at stages
  cases r with
  | error t => exact stages
  | ok t =>
    unfold endBlock
    dsimp only
    split
    · exact stages.trans (analyse_sameLine w t)
    · exact stages

/-! ### Who has asked to stay -/

/-- The block comes to a request that asks to keep the connection. -/
def asksToStay (w : World) (s : Conn) : Bool :=
  match toAnalysis w s with
  | .ok t => decide (t.http.state_ = .analysis) && t.http.isKeepAliveRequested
  | .error _ => false

theorem toAnalysis_keepAlive (w : World) (s : Conn) :
    (outcome (toAnalysis w s)).http.keepAlive_ = s.http.keepAlive_ := by
  unfold toAnalysis
  have read := readStage_outcome s
  generalize readStage s = r at read
  cases read with
  | stops => rfl
  | fails => rfl
  | goesOn inBuffer rest state =>
    change (outcome (parseStages w (readInto s inBuffer rest state))).http.keepAlive_ = _
    have parsed := parseStages_parsed w (readInto s inBuffer rest state)
    generalize parseStages w (readInto s inBuffer rest state) = r at parsed
    cases parsed with
    | goesOn h frame _ => exact frame.keepAlive_
    | waits h frame _ _ => exact frame.keepAlive_
    | rejects h msg frame _ => exact frame.keepAlive_

/-- A request that is answered leaves its wish in `keepAlive_`. -/
def LeavesWish (s : Conn) (answer : Conn × AnalysisState) : Prop :=
  answer.2 = .success →
    answer.1.http.keepAlive_ = (s.http.keepAlive_ || s.http.isKeepAliveRequested)

theorem answerApiRequest_wish (view : LightAgentGateway.View) (s : Conn)
    (contentLength : Option Nat) (body : Bytes) :
    LeavesWish s (answerApiRequest view s contentLength body) := by
  unfold answerApiRequest
  dsimp only
  split
  · exact nofun
  · exact fun _ => rfl

theorem analysisApiRequest_wish (view : LightAgentGateway.View) (s : Conn) :
    LeavesWish s (analysisApiRequest view s) := by
  unfold analysisApiRequest
  repeat' split
  · exact nofun
  · exact nofun
  · exact answerApiRequest_wish _ _ _ _
  · exact answerApiRequest_wish _ _ _ _

theorem analysisStaticRequest_wish (fs : Bytes → Option FileStat) (s : Conn) :
    LeavesWish s (analysisStaticRequest fs s) := by
  unfold analysisStaticRequest notFound
  dsimp only
  repeat' split
  · exact fun _ => rfl
  · exact fun _ => rfl
  · exact nofun
  · exact fun _ => rfl
  · exact nofun
  · exact nofun
  · exact fun _ => rfl

theorem analysisRequest_wish (w : World) (s : Conn) : LeavesWish s (analysisRequest w s) := by
  by_cases api : (bytes "api/").isPrefixOf s.http.fileName_ = true
  · rw [analysisRequest_api w api]
    exact analysisApiRequest_wish _ _
  by_cases post : s.http.method_ = .post
  · rw [analysisRequest_post w api post]
    exact nofun
  · rw [analysisRequest_static w api post]
    exact analysisStaticRequest_wish _ _

theorem readBlock_keepAlive (w : World) (s : Conn)
    (alive : (readBlock w s).http.error_ = false) :
    (readBlock w s).http.keepAlive_ = (s.http.keepAlive_ || asksToStay w s) := by
  have kept := toAnalysis_keepAlive w s
  unfold readBlock asksToStay at *
  generalize toAnalysis w s = r at *
  cases r with
  | error t => exact kept.trans (Bool.or_false _).symm
  | ok t =>
    unfold endBlock at *
    dsimp only [outcome] at *
    by_cases state : t.http.state_ = .analysis
    · rw [if_pos state] at alive ⊢
      rw [decide_eq_true state, Bool.true_and, ← kept]
      rcases analyse_cases w t with ⟨success, done⟩ | ⟨_, done⟩
      · rw [done]
        exact analysisRequest_wish w t success
      · rw [done] at alive
        cases alive
    · rw [if_neg state, kept, decide_eq_false state, Bool.false_and, Bool.or_false]

/-! ### The run so far -/

namespace Stream

/-- A block does not come to a request that asks to keep the connection. -/
def Undemanding (w : World) (s : Stream) : Prop := s.point = .block → asksToStay w s.conn = false

instance (w : World) (s : Stream) : Decidable (s.Undemanding w) :=
  inferInstanceAs (Decidable (_ → _))

/-- What a step leaves of the members that a later request could meet. -/
structure Remembers (w : World) (s s' : Stream) : Prop where
  alive : s'.conn.http.error_ = false → s.conn.http.error_ = false
  keepAlive_ : s'.conn.http.error_ = false →
    (s'.conn.http.keepAlive_ = false ↔ s.Undemanding w ∧ s.conn.http.keepAlive_ = false)
  position : s.conn.http.nowReadPos_ = 0 → s'.conn.http.nowReadPos_ = 0
  line : (s.conn.http.state_ = .parseUri → s.conn.http.hState_ = .start ∧
      s.conn.http.headers_ = .empty) →
    s'.conn.http.state_ = .parseUri → s'.conn.http.hState_ = .start ∧
      s'.conn.http.headers_ = .empty

/-- Outside the block nobody asks for anything. -/
theorem Remembers.of_frame {w : World} {s s' : Stream} (point : s.point ≠ .block)
    (alive : s'.conn.http.error_ = false → s.conn.http.error_ = false)
    (keepAlive : s'.conn.http.keepAlive_ = s.conn.http.keepAlive_)
    (line : SameLine s.conn s'.conn) : s.Remembers w s' where
  alive := alive
  keepAlive_ _ := by
    rw [keepAlive]
    exact (and_iff_right fun at_block => absurd at_block point).symm
  position := line.nowReadPos_.trans
  line before state := by
    obtain ⟨first, scan, headers⟩ := line.line state
    obtain ⟨start, empty⟩ := before first
    exact ⟨scan.trans start, headers.trans empty⟩

/-- The members that a write leaves alone. -/
theorem handleWrite_keeps (s : Conn) : (handleWrite s).http.keepAlive_ = s.http.keepAlive_ ∧
    SameLine s (handleWrite s) := by
  unfold handleWrite
  split
  · exact ⟨rfl, rfl, fun state => ⟨state, rfl, rfl⟩⟩
  · exact ⟨rfl, .refl s⟩

theorem flush_keeps (s : Conn) : (flush s).http.keepAlive_ = s.http.keepAlive_ ∧
    SameLine s (flush s) := by
  refine flush_cases s ?stays ?writes
  case stays => exact ⟨rfl, .refl s⟩
  case writes => exact fun _ => handleWrite_keeps s

theorem readBlock_remembers {w : World} {s : Stream} (point : s.point = .block) {p : Point}
    {responses : List Bytes} : s.Remembers w ⟨readBlock w s.conn, p, responses⟩ where
  alive going := by
    -- The block does not clear `error_`.
    cases failed : s.conn.http.error_ with
    | false => rfl
    | true => exact absurd ((readBlock_block w s.conn).error_ failed) (going ▸ Bool.false_ne_true)
  keepAlive_ alive := by
    have asked : s.Undemanding w ↔ asksToStay w s.conn = false :=
      ⟨fun undemanding => undemanding point, fun silent _ => silent⟩
    rw [readBlock_keepAlive w s.conn alive, asked, Bool.or_eq_false_iff]
    exact and_comm
  position := (readBlock_sameLine w s.conn).nowReadPos_.trans
  line before state := by
    obtain ⟨first, scan, headers⟩ := (readBlock_sameLine w s.conn).line state
    obtain ⟨start, empty⟩ := before first
    exact ⟨scan.trans start, headers.trans empty⟩

theorem step_remembers {w : World} {s : Stream} {l : StreamLabel} {s' : Stream}
    (taken : step w s l = some s') : s.Remembers w s' := by
  cases step_steps taken with
  | event rest =>
    obtain ⟨point, begun⟩ := begin_conn s _ _
    rw [begun]
    exact .of_frame (by rw [rest]; decide) id rfl ⟨rfl, fun state => ⟨state, rfl, rfl⟩⟩
  | block point => exact readBlock_remembers point
  | flush point =>
    obtain ⟨keepAlive, line⟩ := flush_keeps s.conn
    exact .of_frame (by rw [point]; decide) (flush_parsed s.conn).1 keepAlive line
  | reset point done =>
    have outside : s.point ≠ .block := by rw [point]; decide
    obtain ⟨timer, http⟩ := reset_http s.conn
    -- `keepAlive_` is not among the members that are cleared.
    refine ⟨fun _ => done.1, fun _ => ?_, fun _ => ?_, fun _ _ => ?_⟩
    · dsimp only
      rw [http]
      exact (and_iff_right fun at_block => absurd at_block outside).symm
    · rw [http]
    · rw [http]
      exact ⟨rfl, rfl⟩
  | rearm point =>
    obtain ⟨events, rearmed⟩ := rearm_events s.conn
    rw [rearmed]
    exact .of_frame (by rw [point]; decide) id rfl ⟨rfl, fun state => ⟨state, rfl, rfl⟩⟩
  | out point =>
    obtain ⟨keepAlive, line⟩ := handleWrite_keeps s.conn
    exact .of_frame (by rw [point]; decide) (handleWrite_parsed s.conn).1 keepAlive line
  | conn point =>
    obtain ⟨channel, timer, state, _, http⟩ := handleConn_http s.conn
    refine .of_frame (by rw [point]; decide) ?_ ?_ ⟨?_, fun line => ?_⟩
    · rw [http]; exact id
    · rw [http]
    · rw [http]
    · rw [http] at line ⊢
      exact ⟨line, rfl, rfl⟩
  | expire rest =>
    refine .of_frame (by rw [rest]; decide) ?_ ?_ ⟨?_, fun line => ?_⟩
    · rw [handleClose_http]
      exact id
    · rw [handleClose_http]
    · rw [handleClose_http]
    · rw [handleClose_http] at line ⊢
      exact ⟨line, rfl, rfl⟩

/-- What a whole run leaves: while nothing failed, the connection has been asked to stay exactly
where a request of the run has asked. -/
theorem exec_remembers {w : World} {s s' : Stream} {ls : List StreamLabel}
    (run : (machine w).exec s ls = some s') (alive : s'.conn.http.error_ = false)
    (position : s.conn.http.nowReadPos_ = 0)
    (line : s.conn.http.state_ = .parseUri → s.conn.http.hState_ = .start ∧
      s.conn.http.headers_ = .empty) :
    s.conn.http.error_ = false ∧ s'.conn.http.nowReadPos_ = 0 ∧
      (s'.conn.http.state_ = .parseUri → s'.conn.http.hState_ = .start ∧
        s'.conn.http.headers_ = .empty) ∧
      (s'.conn.http.keepAlive_ = false ↔ (machine w).Along (fun s _ _ => s.Undemanding w) s ls ∧
        s.conn.http.keepAlive_ = false) := by
  induction ls generalizing s with
  | nil =>
    cases run
    exact ⟨alive, position, line, (and_iff_right trivial).symm⟩
  | cons l ls ih =>
    obtain ⟨next, taken, rest⟩ := Machine.exec_step run
    have step := step_remembers taken
    obtain ⟨going, position', line', kept⟩ := ih rest (step.position position) (step.line line)
    refine ⟨step.alive going, position', line', ?_⟩
    rw [kept, step.keepAlive_ going, Machine.Along, taken]
    constructor
    · rintro ⟨later, now, before⟩
      exact ⟨⟨now, later⟩, before⟩
    · rintro ⟨⟨now, later⟩, before⟩
      exact ⟨later, now, before⟩

end Stream

/-- A request is answered as on a fresh connection, whatever was requested before on a connection
that has answered it all; the timeout is the same where no earlier request asked to keep the
connection, and else that of a connection kept alive. -/
theorem request_isolation {w w' : World} {start s f : Stream} {ls : List StreamLabel}
    (accepted : start.Fresh) (run : (Stream.machine w).exec start ls = some s)
    (alive : s.conn.http.error_ = false) (here : s.conn.http.connectionState_ = .connected)
    (done : s.conn.http.state_ = .parseUri) (input : s.conn.http.inBuffer_ = [])
    (output : s.conn.http.outBuffer_ = []) (fresh : f.Fresh)
    (agree : World.Agree w w' s.conn.wire.served f.conn.wire.served)
    (es : List (Arrival × Events)) (a : Arrival) (revents : Events) :
    (∃ text, (attend w s.conn es).wire.sent = s.conn.wire.sent ++ text ∧
      (attend w' f.conn es).wire.sent = text) ∧
    ((Stream.machine w).Along (fun s _ _ => s.Undemanding w) start ls →
      eventExit w (attend w s.conn es) a revents = eventExit w' (attend w' f.conn es) a revents) ∧
    (¬(Stream.machine w).Along (fun s _ _ => s.Undemanding w) start ls →
      eventExit w (attend w s.conn es) a revents =
        (eventExit w' (attend w' f.conn es) a revents).map (·.kept true)) := by
  obtain ⟨⟨this, loop, fd, now, epollCtl, epoll, conn⟩, _, _⟩ := accepted
  obtain ⟨⟨this', loop', fd', now', epollCtl', epoll', conn'⟩, _, _⟩ := fresh
  obtain ⟨first, unkept, _⟩ := conn ▸ accepted_rested this loop fd now epollCtl epoll
  obtain ⟨second, unkept', unsent⟩ := conn' ▸ accepted_rested this' loop' fd' now' epollCtl' epoll'
  -- What the run leaves: all members as they were at first, but for `keepAlive_`.
  obtain ⟨_, position, line, kept⟩ := Stream.exec_remembers run alive first.nowReadPos_
    fun _ => ⟨first.hState_, first.headers_⟩
  obtain ⟨scan, headers⟩ := line done
  have rested : Rested s.conn := ⟨alive, here, done, scan, position, headers, input, output⟩
  have twin := rested.twin second unkept'
  rw [unsent] at twin
  have later := twin.attend agree es
  have exit := (later.handleEvents agree a revents).2
  refine ⟨?_, fun undemanding => ?_, fun demanding => ?_⟩
  · obtain ⟨text, sent, sent'⟩ := later.sent
    exact ⟨text, sent, sent'⟩
  · rw [exit, kept.mpr ⟨undemanding, unkept⟩]
    simp only [ConnExit.kept_false, Option.map_id']
  -- Some request of the run has asked to stay.
  · have asked : s.conn.http.keepAlive_ = true := by
      cases unasked : s.conn.http.keepAlive_ with
      | true => rfl
      | false => exact absurd (kept.mp unasked).1 demanding
    rw [exit, asked]

/-- The health route after a greeting is as it is on a fresh connection. -/
theorem request_isolation_health : ∃ s,
    (Stream.machine .bare).exec .sample (delivery helloRequest) = some s ∧
    (∃ text, (attend .bare s.conn [(arrivalOf healthRequest, EPOLLIN)]).wire.sent =
        s.conn.wire.sent ++ text ∧
      (attend .bare Stream.sample.conn [(arrivalOf healthRequest, EPOLLIN)]).wire.sent = text) ∧
    eventExit .bare (attend .bare s.conn []) (arrivalOf healthRequest) EPOLLIN =
      eventExit .bare (attend .bare Stream.sample.conn []) (arrivalOf healthRequest) EPOLLIN := by
  obtain ⟨s, run, alive, here, done, input, output⟩ := Machine.exec_any
    (M := Stream.machine .bare) (fun s => s.conn.http.error_ = false ∧
      s.conn.http.connectionState_ = .connected ∧ s.conn.http.state_ = .parseUri ∧
      s.conn.http.inBuffer_ = [] ∧ s.conn.http.outBuffer_ = [])
    .sample (delivery helloRequest) (by decide)
  have agree : World.Agree .bare .bare s.conn.wire.served Stream.sample.conn.wire.served :=
    ⟨rfl, fun _ => rfl, fun _ => rfl⟩
  have isolated (es : List (Arrival × Events)) :=
    request_isolation Stream.sample_fresh run alive here done input output Stream.sample_fresh
      agree es (arrivalOf healthRequest) EPOLLIN
  exact ⟨s, run, (isolated _).1, (isolated []).2.1 (by decide)⟩

def stayRequest : Bytes := bytes "GET /hello HTTP/1.1\r\nConnection: keep-alive\r\n\r\n"

/-- A greeting that was asked to keep the connection doubles the timeout after the next request. -/
theorem keep_alive_survives : ∃ s,
    (Stream.machine .bare).exec .sample (delivery stayRequest) = some s ∧
    s.conn.http.error_ = false ∧ s.conn.http.connectionState_ = .connected ∧
    s.conn.http.state_ = .parseUri ∧ s.conn.http.inBuffer_ = [] ∧ s.conn.http.outBuffer_ = [] ∧
    eventExit .bare s.conn (arrivalOf helloRequest) EPOLLIN =
      some (.rearms (EPOLLIN ||| EPOLLET) DEFAULT_KEEP_ALIVE_TIME) ∧
    eventExit .bare Stream.sample.conn (arrivalOf helloRequest) EPOLLIN =
      some (.rearms (EPOLLIN ||| EPOLLET) (DEFAULT_KEEP_ALIVE_TIME >>> 1)) ∧
    DEFAULT_KEEP_ALIVE_TIME ≠ DEFAULT_KEEP_ALIVE_TIME >>> 1 := by
  obtain ⟨s, run, found⟩ := Machine.exec_any (M := Stream.machine .bare)
    (fun s => s.conn.http.error_ = false ∧ s.conn.http.connectionState_ = .connected ∧
      s.conn.http.state_ = .parseUri ∧ s.conn.http.inBuffer_ = [] ∧
      s.conn.http.outBuffer_ = [] ∧
      eventExit .bare s.conn (arrivalOf helloRequest) EPOLLIN =
        some (.rearms (EPOLLIN ||| EPOLLET) DEFAULT_KEEP_ALIVE_TIME) ∧
      eventExit .bare Stream.sample.conn (arrivalOf helloRequest) EPOLLIN =
        some (.rearms (EPOLLIN ||| EPOLLET) (DEFAULT_KEEP_ALIVE_TIME >>> 1)) ∧
      DEFAULT_KEEP_ALIVE_TIME ≠ DEFAULT_KEEP_ALIVE_TIME >>> 1)
    .sample (delivery stayRequest) (by decide)
  exact ⟨s, run, found⟩

end LightAgent

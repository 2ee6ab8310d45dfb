import LightAgent.HttpData.Effects

/-!
# Where a connection stands

Its name, its loop, its descriptor, its timer link and its poller are nothing to the parsing and
the answering of requests: a connection that is moved to another place reads, answers and writes
as it would have done where it was.
-/
namespace LightAgent

open Library

structure Place where
  this : ConnId
  loop_ : LoopId
  fd_ : Fd
  timer_ : Option TimerId
  epoll : Epoll

/-- The members at another place. -/
def HttpData.moved (h : HttpData) (p : Place) : HttpData :=
  { h with
    this := p.this, loop_ := p.loop_, fd_ := p.fd_, timer_ := p.timer_
    channel_ := { h.channel_ with holder_ := some p.this } }

def Conn.moved (s : Conn) (p : Place) : Conn := ⟨s.http.moved p, s.wire, p.epoll⟩

def movedOutcome (p : Place) : Except Conn Conn → Except Conn Conn
  | .ok s => .ok (s.moved p)
  | .error s => .error (s.moved p)

def movedAnswer (p : Place) (answer : Conn × AnalysisState) : Conn × AnalysisState :=
  (answer.1.moved p, answer.2)

variable (p : Place) (s : Conn)

/-! ### The stages -/

theorem movedOutcome_bind (r : Except Conn Conn) {next : Conn → Except Conn Conn}
    (after : ∀ s, next (s.moved p) = movedOutcome p (next s)) :
    (movedOutcome p r).bind next = movedOutcome p (r.bind next) := by
  cases r with
  | ok s => exact after s
  | error s => rfl

theorem readStage_moved : readStage (s.moved p) = movedOutcome p (readStage s) := by
  unfold readStage
  have same : readn (s.moved p).http.inBuffer_ (s.moved p).wire.reads =
      readn s.http.inBuffer_ s.wire.reads := rfl
  rw [same]
  generalize readn s.http.inBuffer_ s.wire.reads = result
  simp only [apply_ite (movedOutcome p)]
  rfl

theorem parseURI_moved (h : HttpData) :
    (h.moved p).parseURI = h.parseURI.map (·.moved p) id := by
  unfold HttpData.parseURI
  have sought : findFrom [CR] (h.moved p).inBuffer_ (h.moved p).nowReadPos_ =
      findFrom [CR] h.inBuffer_ h.nowReadPos_ := rfl
  rw [sought]
  cases findFrom [CR] h.inBuffer_ h.nowReadPos_ with
  | none => rfl
  | some pos =>
    dsimp only
    -- What a line does to the members, it does wherever they are.
    rcases HttpData.parseLine_cases (h.inBuffer_.take pos) with
      ⟨method, version, file, eq⟩ | ⟨method, file, eq⟩
    · rw [eq]
      exact eq _
    · rw [eq]
      exact eq _

theorem parseUriStage_moved : parseUriStage (s.moved p) = movedOutcome p (parseUriStage s) := by
  have line : (s.moved p).http.parseURI = s.http.parseURI.map (·.moved p) id :=
    parseURI_moved p s.http
  unfold parseUriStage
  rw [apply_ite (movedOutcome p), line]
  generalize s.http.parseURI = result
  obtain ⟨h, flag⟩ := result
  cases flag <;> rfl

theorem endScan_moved (h : HttpData) (scan : Except HeaderExit HeaderScan) :
    (h.moved p).endScan scan = (h.endScan scan).map (·.moved p) id := by
  cases scan with
  | error exit => cases exit <;> rfl
  | ok st =>
    unfold HttpData.endScan
    dsimp only
    rw [apply_ite (Prod.map _ id), apply_ite (Prod.map _ id)]
    cases st.body_start with
    | none => rfl
    | some body =>
      dsimp only
      rw [apply_ite (Prod.map _ id)]
      rfl

theorem parseHeadersStage_moved (w : World) :
    parseHeadersStage w (s.moved p) = movedOutcome p (parseHeadersStage w s) := by
  have block : (s.moved p).http.parseHeaders w.outside =
      (s.http.parseHeaders w.outside).map (·.moved p) id := endScan_moved p s.http _
  unfold parseHeadersStage
  rw [apply_ite (movedOutcome p), block]
  generalize s.http.parseHeaders w.outside = result
  obtain ⟨h, flag⟩ := result
  cases flag with
  | again => rfl
  | error => rfl
  | thrown => rfl
  | success =>
    dsimp only
    rw [apply_ite (movedOutcome p)]
    rfl

theorem recvBodyStage_moved : recvBodyStage (s.moved p) = movedOutcome p (recvBodyStage s) := by
  have length : (s.moved p).http.getContentLength = s.http.getContentLength :=
    HttpData.getContentLength_congr rfl
  unfold recvBodyStage
  rw [length, apply_ite (movedOutcome p)]
  cases s.http.getContentLength with
  | none => rfl
  | some content_length =>
    dsimp only
    rw [apply_ite (movedOutcome p)]
    rfl

theorem toAnalysis_moved (w : World) : toAnalysis w (s.moved p) = movedOutcome p (toAnalysis w s) := by
  unfold toAnalysis parseStages
  rw [readStage_moved]
  refine movedOutcome_bind p _ fun s => ?_
  rw [parseUriStage_moved]
  refine movedOutcome_bind p _ fun s => ?_
  rw [parseHeadersStage_moved]
  exact movedOutcome_bind p _ fun s => recvBodyStage_moved p s

/-! ### The analysis -/

theorem answerApiRequest_moved (view : LightAgentGateway.View) (contentLength : Option Nat)
    (body : Bytes) : answerApiRequest view (s.moved p) contentLength body =
      movedAnswer p (answerApiRequest view s contentLength body) := by
  have keepAlive : (s.moved p).http.isKeepAliveRequested = s.http.isKeepAliveRequested :=
    HttpData.isKeepAliveRequested_congr rfl
  unfold answerApiRequest
  dsimp only
  rw [keepAlive]
  -- The gateway is asked the same.
  have asked : LightAgentGateway.handle view ⟨toGatewayMethod (s.moved p).http.method_,
      bytes "/" ++ (s.moved p).http.fileName_, body⟩ = LightAgentGateway.handle view
        ⟨toGatewayMethod s.http.method_, bytes "/" ++ s.http.fileName_, body⟩ := rfl
  rw [asked]
  cases LightAgentGateway.handle view
    ⟨toGatewayMethod s.http.method_, bytes "/" ++ s.http.fileName_, body⟩ with
  | none => rfl
  | some response => rfl

theorem analysisApiRequest_moved (view : LightAgentGateway.View) :
    analysisApiRequest view (s.moved p) = movedAnswer p (analysisApiRequest view s) := by
  have length : (s.moved p).http.getContentLength = s.http.getContentLength :=
    HttpData.getContentLength_congr rfl
  unfold analysisApiRequest
  rw [length, apply_ite (movedAnswer p), ← answerApiRequest_moved]
  cases s.http.getContentLength with
  | none => rfl
  | some contentLength =>
    dsimp only
    rw [apply_ite (movedAnswer p), ← answerApiRequest_moved]
    rfl

theorem analysisStaticRequest_moved (fs : Bytes → Option FileStat) :
    analysisStaticRequest fs (s.moved p) = movedAnswer p (analysisStaticRequest fs s) := by
  have keepAlive : (s.moved p).http.isKeepAliveRequested = s.http.isKeepAliveRequested :=
    HttpData.isKeepAliveRequested_congr rfl
  unfold analysisStaticRequest
  dsimp only
  rw [keepAlive, apply_ite (movedAnswer p), apply_ite (movedAnswer p)]
  have named : (s.moved p).http.fileName_ = s.http.fileName_ := rfl
  rw [named]
  cases fs (cStr s.http.fileName_) with
  | none => rfl
  | some sbuf =>
    dsimp only
    rw [apply_ite (movedAnswer p), apply_ite (movedAnswer p)]
    cases sbuf.mapped with
    | none => rfl
    | some src => rfl

theorem analysisRequest_moved (w : World) :
    analysisRequest w (s.moved p) = movedAnswer p (analysisRequest w s) := by
  have counted : ({ s.moved p with wire := { (s.moved p).wire with
      served := (s.moved p).wire.served + 1 } } : Conn) =
      ({ s with wire := { s.wire with served := s.wire.served + 1 } } : Conn).moved p := rfl
  by_cases api : (bytes "api/").isPrefixOf s.http.fileName_ = true
  · rw [analysisRequest_api w (s := s.moved p) api, analysisRequest_api w api, counted]
    exact analysisApiRequest_moved p _ _
  by_cases post : s.http.method_ = .post
  · rw [analysisRequest_post w (s := s.moved p) api post, analysisRequest_post w api post]
    rfl
  · rw [analysisRequest_static w (s := s.moved p) api post, analysisRequest_static w api post,
      counted]
    exact analysisStaticRequest_moved p _ _

theorem readBlock_moved (w : World) : readBlock w (s.moved p) = (readBlock w s).moved p := by
  unfold readBlock
  rw [toAnalysis_moved]
  cases toAnalysis w s with
  | error t => rfl
  | ok t =>
    have answer := analysisRequest_moved p t w
    unfold endBlock movedOutcome analyse
    dsimp only
    rw [apply_ite (Conn.moved · p), answer]
    generalize analysisRequest w t = result
    obtain ⟨u, flag⟩ := result
    cases flag <;> rfl

theorem handleWrite_moved : handleWrite (s.moved p) = (handleWrite s).moved p := by
  unfold handleWrite
  rw [apply_ite (Conn.moved · p)]
  rfl

theorem flush_moved : flush (s.moved p) = (flush s).moved p := by
  unfold flush
  rw [apply_ite (Conn.moved · p), apply_ite (Conn.moved · p), ← handleWrite_moved]
  rfl

theorem rearm_moved : rearm (s.moved p) = (rearm s).moved p := by
  unfold rearm
  rw [apply_ite (Conn.moved · p)]
  rfl

/-! ### The handlers -/

/-- The same connection, but for the place where it stands. -/
def Elsewhere (s t : Conn) : Prop := ∃ p, t = s.moved p

variable {s} {t : Conn}

theorem Elsewhere.wire (elsewhere : Elsewhere s t) : t.wire = s.wire := by
  obtain ⟨p, rfl⟩ := elsewhere
  rfl

theorem Elsewhere.of_http {q : Place} (http : t.http = s.http.moved q) (wire : t.wire = s.wire) :
    Elsewhere s t := by
  obtain ⟨_, _, epoll⟩ := t
  cases http
  cases wire
  exact ⟨⟨q.this, q.loop_, q.fd_, q.timer_, epoll⟩, rfl⟩

/-- Each lets go of its own timer. -/
theorem Elsewhere.seperateTimer (elsewhere : Elsewhere s t) :
    Elsewhere (seperateTimer s) (seperateTimer t) := by
  obtain ⟨p, rfl⟩ := elsewhere
  obtain ⟨timer, http⟩ := seperateTimer_http s
  obtain ⟨timer', http'⟩ := seperateTimer_http (s.moved p)
  refine .of_http (q := ⟨p.this, p.loop_, p.fd_, timer', p.epoll⟩) ?_ ?_
  · rw [http, http']
    rfl
  · rw [seperateTimer_wire, seperateTimer_wire]
    rfl

theorem Elsewhere.reset (elsewhere : Elsewhere s t) : Elsewhere (reset s) (reset t) := by
  obtain ⟨p, rfl⟩ := elsewhere
  exact Elsewhere.seperateTimer ⟨p, rfl⟩

theorem Elsewhere.handleRead (w : World) (elsewhere : Elsewhere s t) :
    Elsewhere (handleRead w s) (handleRead w t) := by
  have depths : t.input = s.input := by
    obtain ⟨p, rfl⟩ := elsewhere
    rfl
  unfold LightAgent.handleRead
  rw [depths]
  generalize s.input + 2 = depth
  clear depths
  induction depth generalizing s t with
  | zero => exact elsewhere
  | succ depth ih =>
    obtain ⟨p, rfl⟩ := elsewhere
    rw [handleReadFrom, handleReadFrom]
    dsimp only
    rw [readBlock_moved, flush_moved]
    generalize flush (readBlock w s) = round
    have ended : Elsewhere (LightAgent.reset round) (LightAgent.reset (round.moved p)) :=
      Elsewhere.reset ⟨p, rfl⟩
    -- Both have finished the request, and both go on with what is buffered.
    by_cases finished : round.finished
    · rw [if_pos finished, if_pos (show (round.moved p).finished from finished)]
      have both : (LightAgent.reset (round.moved p)).continues ↔ (LightAgent.reset round).continues := by
        obtain ⟨q, eq⟩ := ended
        rw [eq]
        exact Iff.rfl
      simp only [both]
      split
      · exact ih ended
      · exact ended
    · rw [if_neg finished, if_neg (show ¬(round.moved p).finished from finished), rearm_moved]
      exact ⟨p, rfl⟩

theorem Elsewhere.dispatch (w : World) (elsewhere : Elsewhere s t) :
    Elsewhere (dispatch w s) (dispatch w t) := by
  have written {u v : Conn} (elsewhere : Elsewhere u v) : Elsewhere (handleWrite u) (handleWrite v) := by
    obtain ⟨p, rfl⟩ := elsewhere
    exact ⟨p, handleWrite_moved p u⟩
  have events : t.http.channel_.revents_ = s.http.channel_.revents_ := by
    obtain ⟨p, rfl⟩ := elsewhere
    rfl
  unfold LightAgent.dispatch
  dsimp only
  rw [events]
  have read : Elsewhere
      (if s.http.channel_.revents_.has (EPOLLIN ||| EPOLLPRI ||| EPOLLRDHUP) then
        LightAgent.handleRead w s else s)
      (if s.http.channel_.revents_.has (EPOLLIN ||| EPOLLPRI ||| EPOLLRDHUP) then
        LightAgent.handleRead w t else t) := by
    split
    · exact elsewhere.handleRead w
    · exact elsewhere
  split
  · exact written read
  · exact read

theorem Elsewhere.setEvents (events : Events) (elsewhere : Elsewhere s t) :
    Elsewhere (s.setEvents events) (t.setEvents events) := by
  obtain ⟨p, rfl⟩ := elsewhere
  exact ⟨p, rfl⟩

theorem Elsewhere.decided (w : World) (elsewhere : Elsewhere s t) :
    Elsewhere (decided w s) (decided w t) :=
  ((elsewhere.setEvents 0).dispatch w).seperateTimer

/-- `handleConn` decides by what every place has in common. -/
theorem Elsewhere.connExit (elsewhere : Elsewhere s t) : t.http.connExit = s.http.connExit := by
  obtain ⟨p, rfl⟩ := elsewhere
  rfl

end LightAgent

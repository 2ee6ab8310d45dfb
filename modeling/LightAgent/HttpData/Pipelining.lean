import LightAgent.HttpData.Fragmentation

/-!
# Requests in one read

A request that is answered and used up when it comes alone to some idle connection is
answered and used up by every idle connection, so requests that come together are
answered like the same requests one by one.
-/
namespace LightAgent

open Library

/-- A connection between two requests with nothing buffered. -/
structure Idle (s : Conn) : Prop where
  settled : Settled s
  state : s.http.state_ = .parseUri
  buffer : s.http.inBuffer_ = []
  position : s.http.nowReadPos_ = 0
  headers : s.http.headers_ = .empty

/-! ### The request a connection is at -/

/-- Two connections are at the same place of the same request. -/
structure SameRequest (s t : Conn) : Prop where
  state_ : t.http.state_ = s.http.state_
  hState_ : t.http.hState_ = s.http.hState_
  inBuffer_ : t.http.inBuffer_ = s.http.inBuffer_
  headers_ : t.http.headers_ = s.http.headers_
  method_ : t.http.method_ = s.http.method_
  fileName_ : t.http.fileName_ = s.http.fileName_

theorem Idle.received_buffer {s : Conn} (idle : Idle s) (r : Bytes) :
    (s.received r).http.inBuffer_ = r := by
  unfold Conn.received
  simp [Conn.setHttp, HttpData.received, idle.buffer]

/-- Two connections before the same request line. -/
structure SameStart (s t : Conn) : Prop where
  state : s.http.state_ = .parseUri
  state' : t.http.state_ = .parseUri
  inBuffer_ : t.http.inBuffer_ = s.http.inBuffer_
  nowReadPos_ : t.http.nowReadPos_ = s.http.nowReadPos_
  hState_ : t.http.hState_ = s.http.hState_
  headers_ : t.http.headers_ = s.http.headers_

theorem Idle.sameStart {s t : Conn} (idle : Idle s) (idle' : Idle t) (r : Bytes) :
    SameStart (s.received r) (t.received r) where
  state := idle.state
  state' := idle'.state
  inBuffer_ := (idle'.received_buffer r).trans (idle.received_buffer r).symm
  nowReadPos_ := idle'.position.trans idle.position.symm
  hState_ := (idle'.settled.between.fresh idle'.state).trans
    (idle.settled.between.fresh idle.state).symm
  headers_ := idle'.headers.trans idle.headers.symm

/-- How parsing treats one request on two connections: both go on with it, both wait, or both
reject it with the same page. -/
inductive SameStage (s t : Conn) : Except Conn Conn → Except Conn Conn → Prop
  | goesOn (h k : HttpData) : SameRequest (s.setHttp h) (t.setHttp k) →
      h.error_ = s.http.error_ → k.error_ = t.http.error_ →
      SameStage s t (.ok (s.setHttp h)) (.ok (t.setHttp k))
  | waits (h k : HttpData) : h.error_ = s.http.error_ → k.error_ = t.http.error_ →
      SameStage s t (.error (s.setHttp h)) (.error (t.setHttp k))
  | rejects (h k : HttpData) (msg : Bytes) : h.error_ = true → k.error_ = true →
      SameStage s t (.error (handleError (s.setHttp h) 400 msg))
        (.error (handleError (t.setHttp k) 400 msg))

theorem SameStage.bind {s t : Conn} {r r' : Except Conn Conn} (first : SameStage s t r r')
    {stage : Conn → Except Conn Conn}
    (next : ∀ s' t', SameRequest s' t' → SameStage s' t' (stage s') (stage t')) :
    SameStage s t (r.bind stage) (r'.bind stage) := by
  cases first with
  | waits h k alive alive' => exact .waits h k alive alive'
  | rejects h k msg failed failed' => exact .rejects h k msg failed failed'
  | goesOn h k same alive alive' =>
    -- The second stage starts where the first one has left both.
    have second := next _ _ same
    change SameStage s t (stage (s.setHttp h)) (stage (t.setHttp k))
    generalize stage (s.setHttp h) = u at second
    generalize stage (t.setHttp k) = v at second
    cases second with
    | goesOn h' k' same' kept kept' =>
      exact .goesOn h' k' same' (kept.trans alive) (kept'.trans alive')
    | waits h' k' kept kept' => exact .waits h' k' (kept.trans alive) (kept'.trans alive')
    | rejects h' k' msg failed failed' => exact .rejects h' k' msg failed failed'

theorem parseUriStage_same {s t : Conn} (same : SameStart s t) :
    SameStage s t (parseUriStage s) (parseUriStage t) := by
  have found : findFrom [CR] t.http.inBuffer_ t.http.nowReadPos_ =
      findFrom [CR] s.http.inBuffer_ s.http.nowReadPos_ := by
    rw [same.inBuffer_, same.nowReadPos_]
  unfold parseUriStage HttpData.parseURI
  rw [if_pos same.state, if_pos same.state', found]
  -- Without a CR both wait; with one the line decides.
  cases findFrom [CR] s.http.inBuffer_ s.http.nowReadPos_ with
  | none => exact .waits s.http t.http rfl rfl
  | some pos =>
    dsimp only
    rw [same.inBuffer_]
    rcases HttpData.parseLine_cases (s.http.inBuffer_.take pos) with
      ⟨method, version, file, line⟩ | ⟨method, file, line⟩
    · rw [line, line]
      exact .goesOn _ _ ⟨rfl, same.hState_, rfl, same.headers_, rfl, rfl⟩ rfl rfl
    · rw [line, line]
      exact .rejects _ _ _ rfl rfl

theorem parseHeadersStage_same {w : World} {s t : Conn} (same : SameRequest s t) :
    SameStage s t (parseHeadersStage w s) (parseHeadersStage w t) := by
  have call := HttpData.parseHeaders_same w.outside same.hState_ same.inBuffer_ same.headers_
  unfold parseHeadersStage
  by_cases state : s.http.state_ = .parseHeaders
  -- The headers, the scan and the buffer are the same, so the scan ends the same way.
  · rw [if_pos state, if_pos (same.state_.trans state), call]
    obtain ⟨_, _, _, _, frame⟩ := s.http.parseHeaders_frame w.outside
    cases result : s.http.parseHeaders w.outside with
    | mk h flag =>
      rw [result] at frame
      dsimp only at frame ⊢
      have alive : h.error_ = s.http.error_ := by rw [frame]
      have file : h.fileName_ = s.http.fileName_ := by rw [frame]
      have kept : h.method_ = s.http.method_ := by rw [frame]
      have method : t.http.method_ = h.method_ := same.method_.trans kept.symm
      cases flag with
      | again => exact .waits _ _ alive rfl
      | thrown => exact .waits _ _ alive rfl
      | error => exact .rejects _ _ _ rfl rfl
      | success =>
        dsimp only
        by_cases post : h.method_ = .post
        · rw [if_pos post, if_pos (method.trans post)]
          exact .goesOn _ _ ⟨rfl, rfl, rfl, rfl, method, same.fileName_.trans file.symm⟩ alive rfl
        · rw [if_neg post, if_neg (method ▸ post)]
          exact .goesOn _ _ ⟨rfl, rfl, rfl, rfl, method, same.fileName_.trans file.symm⟩ alive rfl
  · rw [if_neg state, if_neg (same.state_ ▸ state)]
    exact .goesOn s.http t.http same rfl rfl

theorem recvBodyStage_same {s t : Conn} (same : SameRequest s t) :
    SameStage s t (recvBodyStage s) (recvBodyStage t) := by
  have length : t.http.getContentLength = s.http.getContentLength :=
    HttpData.getContentLength_congr same.headers_
  unfold recvBodyStage
  by_cases state : s.http.state_ = .recvBody
  -- The length comes from the headers and the buffer has the same bytes.
  · rw [if_pos state, if_pos (same.state_.trans state), length, same.inBuffer_]
    repeat' split
    · exact .rejects _ _ _ rfl rfl
    · exact .waits s.http t.http rfl rfl
    · exact .goesOn _ _ ⟨rfl, same.hState_, same.inBuffer_, same.headers_, same.method_,
        same.fileName_⟩ rfl rfl
  · rw [if_neg state, if_neg (same.state_ ▸ state)]
    exact .goesOn s.http t.http same rfl rfl

/-- The same request takes the same way through all the parsing. -/
theorem parseStages_same (w : World) {s t : Conn} (same : SameStart s t) :
    SameStage s t (parseStages w s) (parseStages w t) :=
  (parseUriStage_same same).bind fun _ _ line =>
    (parseHeadersStage_same line).bind fun _ _ block => recvBodyStage_same block

/-- A request that goes through all the parsing does so everywhere. -/
theorem parseStages_same_ok {w : World} {s t s' : Conn} (same : SameStart s t)
    (done : parseStages w s = .ok s') :
    ∃ t', parseStages w t = .ok t' ∧ SameRequest s' t' := by
  have stages := parseStages_same w same
  rw [done] at stages
  generalize parseStages w t = r at stages
  cases stages with
  | goesOn h k same' => exact ⟨_, rfl, same'⟩

/-! ### The answer -/

/-- Two answers agree on whether the request is answered and on what stays in the buffer. -/
def SameAnswer (p q : Conn × AnalysisState) : Prop :=
  q.2 = p.2 ∧ q.1.http.inBuffer_ = p.1.http.inBuffer_

theorem answerApiRequest_same (view view' : LightAgentGateway.View) {s t : Conn}
    (same : SameRequest s t) (contentLength : Option Nat) (body : Bytes) :
    SameAnswer (answerApiRequest view s contentLength body)
      (answerApiRequest view' t contentLength body) := by
  unfold answerApiRequest
  dsimp only
  rw [same.method_, same.fileName_, same.inBuffer_]
  -- Whether a route answers does not depend on what the gateway holds.
  have routed := LightAgentGateway.handle_isSome view
    ⟨toGatewayMethod s.http.method_, bytes "/" ++ s.http.fileName_, body⟩
  have routed' := LightAgentGateway.handle_isSome view'
    ⟨toGatewayMethod s.http.method_, bytes "/" ++ s.http.fileName_, body⟩
  rw [← routed'] at routed
  cases here : LightAgentGateway.handle view
      ⟨toGatewayMethod s.http.method_, bytes "/" ++ s.http.fileName_, body⟩ with
  | none =>
    rw [here] at routed
    rw [Option.isSome_eq_false_iff.mp routed.symm |> Option.isNone_iff_eq_none.mp]
    exact ⟨rfl, same.inBuffer_⟩
  | some response =>
    rw [here] at routed
    obtain ⟨response', there⟩ := Option.isSome_iff_exists.mp routed.symm
    rw [there]
    exact ⟨rfl, rfl⟩

theorem analysisApiRequest_same (view view' : LightAgentGateway.View) {s t : Conn}
    (same : SameRequest s t) :
    SameAnswer (analysisApiRequest view s) (analysisApiRequest view' t) := by
  have length : t.http.getContentLength = s.http.getContentLength :=
    HttpData.getContentLength_congr same.headers_
  unfold analysisApiRequest
  rw [same.method_, same.inBuffer_, length]
  repeat' split
  · exact ⟨rfl, same.inBuffer_⟩
  · exact ⟨rfl, same.inBuffer_⟩
  · exact answerApiRequest_same view view' same _ _
  · exact answerApiRequest_same view view' same _ _

theorem analysisStaticRequest_same (fs : Bytes → Option FileStat) {s t : Conn}
    (same : SameRequest s t) :
    SameAnswer (analysisStaticRequest fs s) (analysisStaticRequest fs t) := by
  unfold analysisStaticRequest
  dsimp only
  rw [same.method_, same.fileName_]
  repeat' split
  all_goals exact ⟨rfl, same.inBuffer_⟩

theorem analysisRequest_same {w : World} {s t : Conn} (same : SameRequest s t)
    (files : w.fs t.wire.served = w.fs s.wire.served) :
    SameAnswer (analysisRequest w s) (analysisRequest w t) := by
  have counted : SameRequest { s with wire := { s.wire with served := s.wire.served + 1 } }
      { t with wire := { t.wire with served := t.wire.served + 1 } } :=
    ⟨same.state_, same.hState_, same.inBuffer_, same.headers_, same.method_, same.fileName_⟩
  unfold analysisRequest
  dsimp only
  rw [same.method_, same.fileName_, files]
  repeat' split
  · exact analysisApiRequest_same _ _ counted
  · exact ⟨rfl, same.inBuffer_⟩
  · exact analysisStaticRequest_same _ counted
  · exact analysisStaticRequest_same _ counted

/-! ### A request that comes alone -/

/-- The block answers the request it is given and uses up the buffer. -/
structure Answers (w : World) (s : Conn) (r : Bytes) : Prop where
  finished : (readBlock w (s.received r)).finished
  used : (readBlock w (s.received r)).http.inBuffer_ = []

theorem readBlock_quiet (w : World) {s : Conn} (quiet : s.wire.reads = []) (here : s.http.Open) :
    readBlock w s = endBlock w (parseStages w s) := by
  unfold readBlock toAnalysis
  rw [readStage_quiet quiet, if_neg (by rw [here.connectionState_]; decide)]
  rfl

theorem Settled.block {w : World} {s : Conn} (settled : Settled s) :
    readBlock w s = endBlock w (parseStages w s) :=
  readBlock_quiet w settled.quiet.reads settled.here

theorem Answers.stages {w : World} {s : Conn} {r : Bytes} (idle : Idle s)
    (answers : Answers w s r) :
    ∃ s', parseStages w (s.received r) = .ok s' ∧ s'.http.Ready ∧
      (analysisRequest w s').2 = .success ∧ (analysisRequest w s').1.http.inBuffer_ = [] := by
  have settled := idle.settled.received r
  obtain ⟨finished, used⟩ := answers
  rw [settled.block] at finished used
  cases stages : parseStages w (s.received r) with
  | error s' =>
    rw [stages] at finished
    -- Where a stage stops the request is not finished.
    have between := parseStages_waits settled.between stages finished.1
    rcases between.state with state | state | state
    all_goals exact nomatch state.symm.trans finished.2
  | ok s' =>
    have ready := parseStages_ready settled.between stages
    have now : endBlock w (.ok s') = analyse w s' := if_pos ready.state
    rw [stages, now] at finished used
    refine ⟨s', rfl, ready, ?_⟩
    -- Only a successful analysis finishes.
    rcases analyse_cases w s' with ⟨success, done⟩ | ⟨_, done⟩
    · rw [done] at used
      exact ⟨success, used⟩
    · rw [done] at finished
      exact nomatch finished.1

theorem Parsed.alive {s s' : Conn} (parsed : Parsed s (.ok s')) :
    s'.http.error_ = s.http.error_ := by
  obtain ⟨h, rfl, _, same⟩ := parsed.of_ok
  exact same

theorem Parsed.wire {s s' : Conn} (parsed : Parsed s (.ok s')) : s'.wire = s.wire := by
  obtain ⟨h, rfl, _, _⟩ := parsed.of_ok
  rfl

theorem Answers.of_stages {w : World} {s s' : Conn} {r : Bytes} (idle : Idle s)
    (stages : parseStages w (s.received r) = .ok s') (state : s'.http.state_ = .analysis)
    (success : (analysisRequest w s').2 = .success)
    (used : (analysisRequest w s').1.http.inBuffer_ = []) : Answers w s r := by
  have alive : s'.http.error_ = false :=
    (stages ▸ parseStages_parsed w (s.received r)).alive.trans idle.settled.here.error_
  have block : readBlock w (s.received r) = analyse w s' := by
    rw [(idle.settled.received r).block, stages]
    exact if_pos state
  -- The analysis itself does not set `error_`.
  have kept : (analysisRequest w s').1.http.error_ = false := by
    obtain ⟨⟨_, _, _, _, http⟩, _, _⟩ := analysisRequest_frame w s'
    rw [http]; exact alive
  have done := analyse_success success
  exact ⟨by rw [block, done]; exact ⟨kept, rfl⟩, by rw [block, done]; exact used⟩

/-- What one idle connection answers and uses up, every other one does. -/
theorem Answers.elsewhere {w : World} {s t : Conn} {r : Bytes} (idle : Idle s) (idle' : Idle t)
    (files : w.fs t.wire.served = w.fs s.wire.served) (answers : Answers w s r) :
    Answers w t r := by
  obtain ⟨s₃, stages, ready, success, used⟩ := answers.stages idle
  obtain ⟨t₃, stages', same₃⟩ := parseStages_same_ok (idle.sameStart idle' r) stages
  have wire : s₃.wire = s.wire := (stages ▸ parseStages_parsed w (s.received r)).wire
  have wire' : t₃.wire = t.wire := (stages' ▸ parseStages_parsed w (t.received r)).wire
  have answer := analysisRequest_same (w := w) same₃ (by rw [wire, wire']; exact files)
  exact .of_stages idle' stages' (same₃.state_.trans ready.state) (answer.1.trans success)
    (answer.2.trans used)

theorem handleWrite_buffer (s : Conn) : (handleWrite s).http.inBuffer_ = s.http.inBuffer_ := by
  unfold handleWrite
  split <;> rfl

theorem flush_buffer (s : Conn) : (flush s).http.inBuffer_ = s.http.inBuffer_ := by
  refine flush_cases s ?stays ?writes
  case stays => rfl
  case writes => exact fun _ => handleWrite_buffer s

/-- A request that comes alone leaves the connection idle. -/
theorem Answers.idle {w : World} {s : Conn} {r : Bytes} (idle : Idle s)
    (answers : Answers w s r) : Idle (handleRead w (s.received r)) := by
  have settled := idle.settled.received r
  have quiet := readBlock_alike w (.refl settled.quiet)
  have here : (readBlock w (s.received r)).http.Open :=
    ⟨answers.finished.1, (readBlock_connectionState w settled.quiet.reads).trans
      settled.here.connectionState_⟩
  obtain ⟨quiet', here', output, state⟩ := flush_settled quiet.right.reads quiet.right.writes here
  have done : (flush (readBlock w (s.received r))).finished :=
    ⟨here'.error_, state.trans answers.finished.2⟩
  obtain ⟨timer, http⟩ := reset_http (flush (readBlock w (s.received r)))
  -- The request is used up, so no further round is made.
  have empty : (reset (flush (readBlock w (s.received r)))).http.inBuffer_ = [] := by
    rw [http]
    exact (flush_buffer _).trans answers.used
  have result : handleRead w (s.received r) = reset (flush (readBlock w (s.received r))) := by
    rw [handleRead_finishes done]
    exact if_neg fun continues => continues.1 empty
  obtain ⟨settled', _⟩ := reset_settled quiet' here' output
  rw [result]
  exact ⟨settled', by rw [http], empty, by rw [http], by rw [http]⟩

theorem Answers.solid {w : World} {s : Conn} {r : Bytes} (idle : Idle s)
    (answers : Answers w s r) : r ≠ [] := by
  rintro rfl
  have nothing := readBlock_idle (w := w) (idle.settled.received []) idle.state
    (idle.received_buffer [])
  have done := answers.finished
  rw [nothing] at done
  exact nomatch idle.state.symm.trans done.2

/-- Whatever the files are when it comes, the request is answered and leaves nothing in
the buffer when it comes alone in one event to some idle connection. -/
def AnsweredAlone (w : World) (r : Bytes) : Prop :=
  ∀ n, ∃ s a, Idle s ∧ w.fs s.wire.served = w.fs n ∧ a.Brings r ∧
    (readBlock w (s.meets a EPOLLIN)).finished ∧
    (readBlock w (s.meets a EPOLLIN)).http.inBuffer_ = []

/-- In an event the block works on what the event brings. -/
theorem Idle.meets {w : World} {s : Conn} {a : Arrival} {r : Bytes} (idle : Idle s)
    (brings : a.Brings r) (small : r.length < 2 ^ 31) : Idle (s.meets a EPOLLIN).allRead ∧
      readBlock w (s.meets a EPOLLIN) = readBlock w ((s.meets a EPOLLIN).allRead.received r) := by
  have opened : (s.meets a EPOLLIN).http.Open :=
    ⟨idle.settled.here.error_, idle.settled.here.connectionState_⟩
  refine ⟨⟨⟨⟨rfl, brings.writes⟩, opened, idle.settled.output, ?_⟩, idle.state, idle.buffer,
    idle.position, idle.headers⟩, readBlock_delivered brings.reads small opened⟩
  exact ⟨idle.settled.between.state, idle.settled.between.fresh, idle.settled.between.posted⟩

theorem AnsweredAlone.answers {w : World} {r : Bytes} (alone : AnsweredAlone w r)
    (small : r.length < 2 ^ 31) {t : Conn} (idle : Idle t) : Answers w t r := by
  obtain ⟨s, a, idle', files, brings, finished, used⟩ := alone t.wire.served
  obtain ⟨begins, block⟩ := idle'.meets (w := w) brings small
  rw [block] at finished used
  exact Answers.elsewhere begins idle files.symm ⟨finished, used⟩

/-! ### Requests one by one -/

theorem Idle.takes {s : Conn} (idle : Idle s) {r : Bytes} (small : r.length < 2 ^ 31) :
    s.http.Takes r :=
  ⟨fun headers => (nomatch idle.state.symm.trans headers), by rw [idle.buffer]; exact small⟩

theorem Idle.serveAll {w : World} {s : Conn} {rs : List Bytes} (idle : Idle s)
    (small : ∀ r ∈ rs, r.length < 2 ^ 31) (answered : ∀ r ∈ rs, AnsweredAlone w r) :
    Takes w s rs ∧ Idle (serveAll w s rs) := by
  induction rs generalizing s with
  | nil => exact ⟨trivial, idle⟩
  | cons r rs ih =>
    have small' := small r List.mem_cons_self
    have answers := (answered r List.mem_cons_self).answers small' idle
    have step : serve w s r = handleRead w (s.received r) :=
      serve_alive idle.settled.here.error_ r
    -- Each request finds the connection idle, as the first one did.
    have idle' : Idle (serve w s r) := by rw [step]; exact answers.idle idle
    obtain ⟨takes, last⟩ := ih idle' (fun r member => small r (List.mem_cons_of_mem _ member))
      (fun r member => answered r (List.mem_cons_of_mem _ member))
    exact ⟨⟨fun _ => idle.takes small', takes⟩, last⟩

theorem Idle.alike {s t : Conn} (idle : Idle s) (alike : Alike s t) : Idle t := by
  have settled := alike.settled idle.settled
  obtain ⟨channel, timer, http⟩ := alike.http
  exact ⟨settled, by rw [http]; exact idle.state, by rw [http]; exact idle.buffer,
    by rw [http]; exact idle.position, by rw [http]; exact idle.headers⟩

/-- Requests come one by one as they come together in one read, if none of them is empty. -/
theorem arrivals_pipelined {w : World} {s : Conn} {rs : List Bytes} {a : Arrival}
    {as : List Arrival} (idle : Idle s) (small : rs.flatten.length < 2 ^ 31) (solid : [] ∉ rs)
    (takes : Takes w s rs) (together : a.Brings rs.flatten)
    (alone : List.Forall₂ Arrival.Brings as rs) :
    SameOutcome (arrivals w s as) (arrive w s a) := by
  have onebyone := arrivals_same (fun _ => idle.settled) alone takes
  have atonce := arrive_same (w := w) (fun _ => idle.settled) together fun _ => idle.takes small
  -- In between, the same bytes are served in two cuts.
  have cut : SameOutcome (serveAll w s rs) (serve w s rs.flatten) := by
    by_cases some : rs = []
    · subst some
      rw [List.flatten_nil, serve_alive idle.settled.here.error_, Conn.received_nil]
      exact (handleRead_idle idle.settled idle.state idle.buffer).same
    · -- Both ways to cut the bytes are ones of pieces that are not empty.
      have solid' : [] ∉ [rs.flatten] := by
        intro member
        have empty := List.flatten_eq_nil_iff.mp (List.mem_singleton.mp member).symm
        obtain ⟨r, member⟩ := List.exists_mem_of_ne_nil rs some
        exact solid (empty r member ▸ member)
      have takes' : Takes w s [rs.flatten] := ⟨fun _ => idle.takes small, trivial⟩
      exact serveAll_same (Alike.refl idle.settled.quiet).same (fun _ => idle.settled) solid solid'
        (by simp) takes takes'
  exact (onebyone.symm.trans cut).trans atonce

/-- Requests that come together in one read are answered like the same requests coming
one by one, and leave the connection as these do. -/
theorem pipelining_equivalence {w : World} {s : Conn} {rs : List Bytes} {a : Arrival}
    {as : List Arrival} (idle : Idle s) (small : rs.flatten.length < 2 ^ 31)
    (answered : ∀ r ∈ rs, AnsweredAlone w r) (together : a.Brings rs.flatten)
    (alone : List.Forall₂ Arrival.Brings as rs) :
    SameOutcome (arrivals w s as) (arrive w s a) ∧ Idle (arrivals w s as) ∧
      Idle (arrive w s a) := by
  have each : ∀ r ∈ rs, r.length < 2 ^ 31 := fun r member =>
    Nat.lt_of_le_of_lt (List.sublist_flatten_of_mem member).length_le small
  have solid : [] ∉ rs := fun member =>
    ((answered [] member).answers (each [] member) idle).solid idle rfl
  obtain ⟨takes, last⟩ := idle.serveAll each answered
  have onebyone := arrivals_same (fun _ => idle.settled) alone takes
  have idle' := last.alike (onebyone.alike last.settled.here.error_)
  have same := arrivals_pipelined idle small solid takes together alone
  exact ⟨same, idle', idle'.alike (same.alike idle'.settled.here.error_)⟩

/-- A fresh connection is idle. -/
theorem accepted_idle (this : ConnId) (loop : LoopId) (connfd : Fd) (now : Timeval)
    (epollCtl : Bool) (epoll : Epoll) :
    Idle (accepted this loop connfd now epollCtl epoll) := by
  have made : Idle ⟨.new this loop connfd,
      { Wire.idle with now := now, epollCtl := epollCtl }, epoll⟩ :=
    ⟨⟨⟨rfl, nofun⟩, ⟨rfl, rfl⟩, rfl, ⟨.inl rfl, fun _ => rfl, nofun⟩⟩, rfl, rfl, rfl, rfl⟩
  exact made.alike (newEvent_alike made.settled.quiet)

/-- A request with a body and one without. -/
def twoRequests : List Bytes :=
  [bytes "POST /api/chat HTTP/1.1\r\nContent-Length: 2\r\n\r\nhi",
    bytes "GET /hello HTTP/1.1\r\nConnection: keep-alive\r\n\r\n"]

theorem pipelining_equivalence_twoRequests :
    let request : LightAgentGateway.Request := ⟨.post, bytes "/api/chat", bytes "hi"⟩
    let response := LightAgentGateway.chat request
    let once := arrive .bare .sample (arrivalOf twoRequests.flatten)
    SameOutcome (arrivals .bare .sample (twoRequests.map arrivalOf)) once ∧
      Idle (arrivals .bare .sample (twoRequests.map arrivalOf)) ∧ Idle once ∧
      once.wire.calls = [request] ∧
      once.wire.sent = apiHeader response false ++ response.body ++ helloResponse := by
  intro request response once
  have idle : Idle .sample := accepted_idle 0 0 5 ⟨0, 0⟩ true .new
  have answered : ∀ r ∈ twoRequests,
      (readBlock .bare (Conn.sample.meets (arrivalOf r) EPOLLIN)).finished ∧
      (readBlock .bare (Conn.sample.meets (arrivalOf r) EPOLLIN)).http.inBuffer_ = [] := by
    decide
  obtain ⟨same, first, second⟩ := pipelining_equivalence idle (by decide)
    (fun r member _ => ⟨.sample, arrivalOf r, idle, rfl, arrivalOf_brings r, answered r member⟩)
    (arrivalOf_brings twoRequests.flatten) (arrivalOf_brings_each twoRequests)
  exact ⟨same, first, second, by decide +kernel, by decide +kernel⟩

end LightAgent

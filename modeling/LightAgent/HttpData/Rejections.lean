import LightAgent.HttpData.Pipelining
import LightAgent.HttpData.ResponseHeads
import LightAgent.HttpData.ResponseStream

/-!
# Requests that are rejected

A stage that rejects a request sends a page for it, and so does every exit of
`analysisRequest` that fails but one: a POST for a file is refused without a word.
-/
namespace LightAgent

open Library

/-- A page of `errorPages` and nothing else has been sent since. -/
def PageSent (s t : Conn) : Prop :=
  ∃ page ∈ errorPages, t.wire.sent = s.wire.sent ++ errorPage page.1 page.2

instance (s t : Conn) : Decidable (PageSent s t) :=
  inferInstanceAs (Decidable (∃ page ∈ errorPages, _))

theorem errorPage_ne (err_num : Nat) (msg : Bytes) : errorPage err_num msg ≠ [] := by
  have start : bytes "HTTP/1.1 " ≠ [] := by decide
  unfold errorPage errorHeader
  simp [start]

/-- Where nothing was sent, no page was. -/
theorem not_pageSent {s t : Conn} (silent : t.wire.sent = s.wire.sent) : ¬PageSent s t := by
  rintro ⟨page, _, sent⟩
  rw [silent] at sent
  exact errorPage_ne _ _ (List.self_eq_append_right.mp sent)

/-- A POST that is complete is for the API. -/
def AddressesApi (w : World) (s : Conn) : Prop :=
  match toAnalysis w s with
  | .ok t => t.http.method_ = .post → (bytes "api/").isPrefixOf t.http.fileName_ = true
  | .error _ => True

instance (w : World) (s : Conn) : Decidable (AddressesApi w s) := by
  unfold AddressesApi
  split <;> infer_instance

/-! ### The analysis -/

/-- How the analysis of a file request ends. -/
theorem analysisStaticRequest_outcome (fs : Bytes → Option FileStat) {s : Conn}
    (free : Unblocked s.wire.writes) :
    Unblocked (analysisStaticRequest fs s).1.wire.writes ∧
      ((analysisStaticRequest fs s).2 = .error → (analysisStaticRequest fs s).1.wire.sent =
        s.wire.sent ++ errorPage 404 (bytes "Not Found!")) := by
  have page (h : HttpData) :=
    handleError_unblocked (s := s.setHttp h) free 404 (bytes "Not Found!")
  unfold analysisStaticRequest
  dsimp only
  -- The three returns that refuse are the ones that send the page.
  repeat' split
  · exact ⟨free, nofun⟩
  · exact ⟨free, nofun⟩
  · exact ⟨(page _).2, fun _ => (page _).1⟩
  · exact ⟨free, nofun⟩
  · exact ⟨(page _).2, fun _ => (page _).1⟩
  · exact ⟨(page _).2, fun _ => (page _).1⟩
  · exact ⟨free, nofun⟩

theorem answerApiRequest_writes (view : LightAgentGateway.View) (s : Conn)
    (contentLength : Option Nat) (body : Bytes) :
    (answerApiRequest view s contentLength body).1.wire.writes = s.wire.writes := by
  unfold answerApiRequest
  dsimp only
  split <;> rfl

theorem analysisApiRequest_writes (view : LightAgentGateway.View) (s : Conn) :
    (analysisApiRequest view s).1.wire.writes = s.wire.writes := by
  unfold analysisApiRequest
  repeat' split
  · rfl
  · rfl
  · exact answerApiRequest_writes _ _ _ _
  · exact answerApiRequest_writes _ _ _ _

/-- Of a complete request that is refused a page tells, but for a POST for a file. -/
theorem analysisRequest_outcome (w : World) {t : Conn} (ready : t.http.Ready)
    (free : Unblocked t.wire.writes) : Unblocked (analysisRequest w t).1.wire.writes ∧
      ((analysisRequest w t).2 = .error →
        t.http.method_ ≠ .post ∧ (analysisRequest w t).1.wire.sent =
          t.wire.sent ++ errorPage 404 (bytes "Not Found!") ∨
        (t.http.method_ = .post ∧ ¬(bytes "api/").isPrefixOf t.http.fileName_ = true) ∧
          (analysisRequest w t).1.wire.sent = t.wire.sent) := by
  by_cases api : (bytes "api/").isPrefixOf t.http.fileName_ = true
  · rw [analysisRequest_api_success api ready.body]
    refine ⟨?_, nofun⟩
    rw [analysisRequest_api w api, analysisApiRequest_writes]
    exact free
  by_cases post : t.http.method_ = .post
  · rw [analysisRequest_post w api post]
    -- A POST for a file is refused before any of the handlers.
    exact ⟨free, fun _ => .inr ⟨⟨post, api⟩, rfl⟩⟩
  · rw [analysisRequest_static w api post]
    obtain ⟨still, page⟩ := analysisStaticRequest_outcome (w.fs t.wire.served)
      (s := { t with wire := { t.wire with served := t.wire.served + 1 } }) free
    exact ⟨still, fun refused => .inl ⟨post, page refused⟩⟩

/-! ### The block -/

theorem HttpData.Between.readInto {s : Conn} (between : s.http.Between) (inBuffer : Bytes)
    (rest : List ReadResult) (state : ConnectionState) :
    (readInto s inBuffer rest state).http.Between :=
  ⟨between.state, between.fresh, between.posted⟩

/-- Where the stages stop they wait for more or have called `handleError`. -/
theorem toAnalysis_error {w : World} {s t : Conn} (between : s.http.Between)
    (alive : s.http.error_ = false) (stops : toAnalysis w s = .error t) :
    t.http.error_ = false ∧ t.http.Between ∨
      ∃ u msg, t = handleError u 400 msg ∧ u.http.error_ = true ∧
        u.wire.sent = s.wire.sent ∧ u.wire.writes = s.wire.writes := by
  unfold toAnalysis at stops
  have read := readStage_outcome s
  generalize readStage s = r at read stops
  cases read with
  | stops inBuffer rest bound =>
    cases stops
    exact .inl ⟨alive, between.readInto inBuffer rest _⟩
  | fails inBuffer rest bound _ => cases stops; exact .inr ⟨_, _, rfl, rfl, rfl, rfl⟩
  | goesOn inBuffer rest state bound _ _ =>
    change parseStages w (readInto s inBuffer rest state) = .error t at stops
    have parsed := parseStages_parsed w (readInto s inBuffer rest state)
    have waits := parseStages_waits (between.readInto inBuffer rest state) stops
    rw [stops] at parsed
    -- Either a stage waits, or it is one that has called `handleError`.
    rcases parsed.of_error with ⟨h, frame, ⟨rfl, same, _⟩ | ⟨msg, rfl, failed⟩⟩
    · exact .inl ⟨same.trans alive, waits (same.trans alive)⟩
    · exact .inr ⟨_, _, rfl, failed, rfl, rfl⟩

/-- Where they have called `handleError` the page is sent. -/
theorem toAnalysis_stops {w : World} {s t : Conn} (between : s.http.Between)
    (alive : s.http.error_ = false) (free : Unblocked s.wire.writes)
    (stops : toAnalysis w s = .error t) : Unblocked t.wire.writes ∧
      (t.http.error_ = false ∧ t.http.Between ∨ t.http.error_ = true ∧ PageSent s t) := by
  have own {r : Except Conn Conn}
      (eq : toAnalysis w (s.withOutput s.http.outBuffer_ s.wire.sent s.wire.writes) = r) :
      r = .error t := eq.symm.trans stops
  cases toAnalysis_blind w s with
  | goesOn s' eq => cases own (eq _ _ _)
  | rejects s' msg member failed eq =>
    cases own (eq _ _ _)
    obtain ⟨sent, still⟩ := handleError_unblocked
      (s := s'.withOutput s.http.outBuffer_ s.wire.sent s.wire.writes) free 400 msg
    exact ⟨still, .inr ⟨failed, (400, msg), member, sent⟩⟩
  | waits s' eq =>
    cases own (eq _ _ _)
    refine ⟨free, .inl ?_⟩
    rcases toAnalysis_error between alive stops with waits | ⟨u, msg, page, _, sent, writes⟩
    · exact waits
    · -- A page would show in what was sent.
      have shown := (handleError_unblocked (s := u) (writes ▸ free) 400 msg).1
      rw [← page, sent] at shown
      exact absurd (List.self_eq_append_right.mp shown) (errorPage_ne _ _)

/-- A request that goes through the stages is complete, and nothing has been sent. -/
theorem toAnalysis_ok {w : World} {s t : Conn} (between : s.http.Between)
    (done : toAnalysis w s = .ok t) : t.http.Ready ∧ t.http.error_ = s.http.error_ ∧
      t.wire.sent = s.wire.sent ∧ t.wire.writes = s.wire.writes := by
  obtain ⟨s₁, stage, done⟩ := bind_eq_ok.mp done
  obtain ⟨inBuffer, rest, state, rfl, bound⟩ := (stage ▸ readStage_outcome s).of_ok
  have parsed := done ▸ parseStages_parsed w (readInto s inBuffer rest state)
  refine ⟨parseStages_ready (between.readInto inBuffer rest state) done, parsed.alive, ?_, ?_⟩
  · rw [parsed.wire]; rfl
  · rw [parsed.wire]; rfl

/-- A block that does not fail waits for more or has answered a request. -/
theorem readBlock_goesOn {w : World} {s : Conn} (between : s.http.Between)
    (alive : s.http.error_ = false) (going : (readBlock w s).http.error_ = false) :
    (readBlock w s).http.Between ∨ (readBlock w s).http.state_ = .finish := by
  cases stages : toAnalysis w s with
  | error t =>
    rw [readBlock_of_error stages] at going ⊢
    rcases toAnalysis_error between alive stages with ⟨_, waits⟩ | ⟨u, msg, rfl, failed, _⟩
    · exact .inl waits
    · exact absurd (failed.symm.trans going) nofun
  | ok t =>
    obtain ⟨ready, _⟩ := toAnalysis_ok between stages
    rw [readBlock_of_ok stages ready.state] at going ⊢
    rcases analyse_cases w t with ⟨_, done⟩ | ⟨_, done⟩
    · rw [done]
      exact .inr rfl
    · rw [done] at going
      cases going

/-- How the block ends on a connection that waits for a request or the rest of one. -/
inductive BlockOutcome (w : World) (s t : Conn) : Prop
  | goesOn : t.http.error_ = false → t.http.Between ∨ t.http.state_ = .finish →
      AddressesApi w s → BlockOutcome w s t
  | rejects : t.http.error_ = true → PageSent s t → AddressesApi w s → BlockOutcome w s t
  | refuses : t.http.error_ = true → t.wire.sent = s.wire.sent → ¬AddressesApi w s →
      BlockOutcome w s t

theorem readBlock_outcome (w : World) {s : Conn} (between : s.http.Between)
    (alive : s.http.error_ = false) (free : Unblocked s.wire.writes) :
    Unblocked (readBlock w s).wire.writes ∧ BlockOutcome w s (readBlock w s) := by
  cases stages : toAnalysis w s with
  | error t =>
    have any : AddressesApi w s := by unfold AddressesApi; rw [stages]; trivial
    rw [readBlock_of_error stages]
    obtain ⟨still, ⟨waits, later⟩ | ⟨failed, page⟩⟩ := toAnalysis_stops between alive free stages
    · exact ⟨still, .goesOn waits (.inl later) any⟩
    · exact ⟨still, .rejects failed page any⟩
  | ok t =>
    obtain ⟨ready, same, sent, writes⟩ := toAnalysis_ok between stages
    have addressed : AddressesApi w s ↔
        (t.http.method_ = .post → (bytes "api/").isPrefixOf t.http.fileName_ = true) := by
      unfold AddressesApi
      rw [stages]
    obtain ⟨still, verdict⟩ := analysisRequest_outcome w ready (writes ▸ free)
    -- The analysis sets no `error_`, so its verdict alone decides.
    have kept : (analysisRequest w t).1.http.error_ = false := by
      obtain ⟨⟨_, _, _, _, http⟩, _, _⟩ := analysisRequest_frame w t
      rw [http]
      exact same.trans alive
    rw [readBlock_of_ok stages ready.state]
    rcases analyse_cases w t with ⟨success, done⟩ | ⟨failure, done⟩
    · rw [done]
      refine ⟨still, .goesOn kept (.inr rfl) (addressed.mpr fun post => ?_)⟩
      -- A POST for a file does not succeed.
      by_contra api
      rw [analysisRequest_post w api post] at success
      cases success
    · rw [done]
      refine ⟨still, ?_⟩
      rcases verdict failure with ⟨other, shown⟩ | ⟨⟨post, file⟩, silent⟩
      · exact .rejects rfl ⟨(404, bytes "Not Found!"), by simp [errorPages], sent ▸ shown⟩
          (addressed.mpr fun post => absurd post other)
      · exact .refuses rfl (silent.trans sent) fun api => file (addressed.mp api post)

/-! ### Along a run -/

theorem HttpData.Between.congr {h k : HttpData} (between : h.Between)
    (state : k.state_ = h.state_) (scan : k.hState_ = h.hState_) (method : k.method_ = h.method_) :
    k.Between where
  state := state ▸ between.state
  fresh line := scan.trans (between.fresh (state.symm.trans line))
  posted body := method.trans (between.posted (state.symm.trans body))

theorem handleWrite_free {s : Conn} (free : Unblocked s.wire.writes) :
    Unblocked (handleWrite s).wire.writes := by
  unfold handleWrite
  split
  · obtain ⟨rest, still, written⟩ := writen_unblocked s.http.outBuffer_ free
    unfold afterWrite
    rw [written]
    exact still
  · exact free

theorem flush_free {s : Conn} (free : Unblocked s.wire.writes) :
    Unblocked (flush s).wire.writes := by
  refine flush_cases s ?stays ?writes
  case stays => exact free
  case writes => exact fun _ => handleWrite_free free

/-- A write may set `error_` and does not clear it; what is parsed stays. -/
theorem handleWrite_parsed (s : Conn) : ((handleWrite s).http.error_ = false →
      s.http.error_ = false) ∧ (handleWrite s).http.state_ = s.http.state_ ∧
      (s.http.Between → (handleWrite s).http.Between) := by
  unfold handleWrite
  split
  · refine ⟨fun alive => ?_, rfl, fun between => between.congr rfl rfl rfl⟩
    exact (Bool.or_eq_false_iff.mp alive).1
  · exact ⟨id, rfl, id⟩

theorem flush_parsed (s : Conn) : ((flush s).http.error_ = false → s.http.error_ = false) ∧
    (flush s).http.state_ = s.http.state_ ∧ (s.http.Between → (flush s).http.Between) := by
  refine flush_cases s ?stays ?writes
  case stays => exact ⟨id, rfl, id⟩
  case writes => exact fun _ => handleWrite_parsed s

namespace Stream

/-- The kernel takes what is written, in pieces or after interruptions. -/
def Unhindered : StreamLabel → Prop
  | .event a _ => Unblocked a.writes
  | _ => True

/-- A block that sets `error_` has sent an error response. -/
def Explains (s s' : Stream) : Prop :=
  s.point = .block → s'.conn.http.error_ = true → PageSent s.conn s'.conn

/-- A POST that a block comes to answer is for the API. -/
def Addressed (w : World) (s : Stream) : Prop := s.point = .block → AddressesApi w s.conn

instance : (l : StreamLabel) → Decidable (Unhindered l)
  | .event a _ => inferInstanceAs (Decidable (Unblocked a.writes))
  | .run => .isTrue trivial
  | .expire => .isTrue trivial

instance (s s' : Stream) : Decidable (s.Explains s') := inferInstanceAs (Decidable (_ → _ → _))

instance (w : World) (s : Stream) : Decidable (s.Addressed w) :=
  inferInstanceAs (Decidable (_ → _))

/-- A connection that has not failed waits for a request or the rest of one, or has just
answered one. -/
structure Attending (s : Stream) : Prop where
  live : s.Live
  between : s.conn.http.error_ = false → s.conn.http.Between ∨
    s.conn.http.state_ = .finish ∧ (s.point = .flush ∨ s.point = .next)

theorem Attending.resting {s : Stream} (attending : s.Attending)
    (alive : s.conn.http.error_ = false) (point : s.point ≠ .flush ∧ s.point ≠ .next) :
    s.conn.http.Between :=
  (attending.between alive).resolve_right fun finished => finished.2.elim point.1 point.2

/-- A block comes upon a connection that waits. -/
theorem Attending.block {s : Stream} (attending : s.Attending) (point : s.point = .block) :
    s.conn.http.error_ = false ∧ s.conn.http.Between := by
  have alive := attending.live.block point
  exact ⟨alive, attending.resting alive (by rw [point]; decide)⟩

theorem reset_between (s : Conn) : (reset s).http.Between := by
  obtain ⟨timer, http⟩ := reset_http s
  rw [http]
  exact ⟨.inl rfl, fun _ => rfl, nofun⟩

theorem step_attending {w : World} {s : Stream} {l : StreamLabel} {s' : Stream}
    (attending : s.Attending) (taken : step w s l = some s') : s'.Attending := by
  have live := step_live attending.live taken
  cases step_steps taken with
  | @event a revents rest open_ =>
    have conn : (s.begin a revents).conn = (s.conn.meets a revents).setEvents 0 := by
      obtain ⟨point, begun⟩ := begin_conn s a revents
      rw [begun]
    have before := attending.resting (attending.live.alive rest open_) (by rw [rest]; decide)
    refine ⟨live, fun _ => .inl ?_⟩
    rw [conn]
    exact before.congr rfl rfl rfl
  | block point =>
    obtain ⟨alive, before⟩ := attending.block point
    refine ⟨live, fun going => ?_⟩
    exact (readBlock_goesOn before alive going).imp id fun finished => ⟨finished, .inl rfl⟩
  | flush =>
    obtain ⟨alive, state, kept⟩ := flush_parsed s.conn
    refine ⟨live, fun going => ?_⟩
    exact (attending.between (alive going)).imp kept fun finished =>
      ⟨state.trans finished.1, .inr rfl⟩
  | reset => exact ⟨live, fun _ => .inl (reset_between _)⟩
  | rearm _ pending =>
    obtain ⟨events, rearmed⟩ := rearm_events s.conn
    rw [rearmed] at live ⊢
    refine ⟨live, fun going => .inl ?_⟩
    -- The round is not over, so the request is still being read.
    have before := (attending.between going).resolve_right fun finished =>
      pending ⟨going, finished.1⟩
    exact before.congr rfl rfl rfl
  | out point =>
    obtain ⟨alive, _, kept⟩ := handleWrite_parsed s.conn
    refine ⟨live, fun going => .inl (kept ?_)⟩
    exact attending.resting (alive going) (by rw [point]; decide)
  | conn point =>
    obtain ⟨channel, timer, state, _, http⟩ := handleConn_http s.conn
    refine ⟨live, fun going => .inl ?_⟩
    rw [http] at going ⊢
    exact (attending.resting going (by rw [point]; decide)).congr rfl rfl rfl
  | expire rest =>
    refine ⟨live, fun going => .inl ?_⟩
    rw [handleClose_http] at going ⊢
    exact (attending.resting going (by rw [rest]; decide)).congr rfl rfl rfl

theorem fresh_attending {s : Stream} (fresh : s.Fresh) : s.Attending := by
  have live := (fresh_invariant s fresh).live
  obtain ⟨⟨this, loop, fd, now, epollCtl, epoll, conn⟩, point, _⟩ := fresh
  have idle : Idle s.conn := conn ▸ accepted_idle this loop fd now epollCtl epoll
  exact ⟨live, fun _ => .inl idle.settled.between⟩

/-- Besides, nothing that is written is refused. -/
structure Steady (s : Stream) : Prop where
  live : s.Live
  free : Unblocked s.conn.wire.writes
  between : s.conn.http.error_ = false → s.conn.http.Between ∨
    s.conn.http.state_ = .finish ∧ (s.point = .flush ∨ s.point = .next)

theorem Steady.attending {s : Stream} (steady : s.Steady) : s.Attending :=
  ⟨steady.live, steady.between⟩

theorem step_steady {w : World} {s : Stream} {l : StreamLabel} {s' : Stream}
    (steady : s.Steady) (free : Unhindered l) (taken : step w s l = some s') : s'.Steady := by
  obtain ⟨live, between⟩ := step_attending steady.attending taken
  refine ⟨live, ?_, between⟩
  -- Only an event brings new results of writes, and what is left of them stays as it is.
  cases step_steps taken with
  | @event a revents rest open_ =>
    obtain ⟨point, begun⟩ := begin_conn s a revents
    rw [begun]
    exact free
  | block point =>
    obtain ⟨alive, before⟩ := steady.attending.block point
    exact (readBlock_outcome w before alive steady.free).1
  | flush => exact flush_free steady.free
  | reset => rw [reset_wire]; exact steady.free
  | rearm =>
    obtain ⟨events, rearmed⟩ := rearm_events s.conn
    rw [rearmed]
    exact steady.free
  | out => exact handleWrite_free steady.free
  | conn => rw [handleConn_wire]; exact steady.free
  | expire => rw [handleClose_wire]; exact steady.free

theorem fresh_steady {s : Stream} (fresh : s.Fresh) : s.Steady := by
  obtain ⟨live, between⟩ := fresh_attending fresh
  obtain ⟨⟨this, loop, fd, now, epollCtl, epoll, conn⟩, point, _⟩ := fresh
  have idle : Idle s.conn := conn ▸ accepted_idle this loop fd now epollCtl epoll
  exact ⟨live, idle.settled.quiet.writes, between⟩

/-- At a block the error response is sent exactly where no POST for a file is refused. -/
theorem explains_iff {w : World} {s s' : Stream} {l : StreamLabel} (steady : s.Steady)
    (taken : step w s l = some s') : s.Explains s' ↔ s.Addressed w := by
  by_cases point : s.point = .block
  · have result : s'.conn = readBlock w s.conn := by
      cases step_steps taken with
      | block => rfl
      | event found | flush found | reset found | rearm found | out found | conn found
      | expire found => cases point.symm.trans found
    obtain ⟨alive, before⟩ := steady.attending.block point
    obtain ⟨_, ends⟩ := readBlock_outcome w before alive steady.free
    unfold Explains Addressed
    rw [result]
    -- Only the refusal without a page breaks both sides.
    cases ends with
    | goesOn going _ addressed =>
      exact iff_of_true (fun _ failed => absurd (failed.symm.trans going) (by decide))
        fun _ => addressed
    | rejects _ page addressed => exact iff_of_true (fun _ _ => page) fun _ => addressed
    | refuses failed silent unaddressed =>
      exact iff_of_false (fun explains => not_pageSent silent (explains point failed))
        fun addressed => unaddressed (addressed point)
  · exact iff_of_true (fun at_block => absurd at_block point) fun at_block => absurd at_block point

end Stream

/-- In a run whose socket takes every write, each request that makes `handleRead` fail has been
answered with an error response, but for a complete POST that is not for the API. -/
theorem no_silent_rejection_iff {w : World} {s : Stream} (start : s.Fresh)
    {ls : List StreamLabel} (free : ∀ l ∈ ls, Stream.Unhindered l) :
    (Stream.machine w).Along (fun s _ s' => s.Explains s') s ls ↔
      (Stream.machine w).Along (fun s _ _ => s.Addressed w) s ls := by
  apply Machine.along_iff (I := Stream.Steady) ls
  · exact fun s l s' _ steady taken => Stream.explains_iff steady taken
  · exact fun s l s' member steady taken _ => Stream.step_steady steady (free l member) taken
  · exact Stream.fresh_steady start

/-- One event that brings this, and the steps of its handlers. -/
def delivery (r : Bytes) : List StreamLabel :=
  [.event (arrivalOf r) EPOLLIN, .run, .run, .run, .run]

/-- A line that names no method is answered with a page. -/
theorem no_silent_rejection_iff_brew : (Stream.machine .bare).Along
    (fun s _ s' => s.Explains s') .sample (delivery (bytes "BREW /pot HTTP/1.1\r\n")) :=
  (no_silent_rejection_iff Stream.sample_fresh (by decide)).mpr (by decide)

/-- A POST for a page ends with the connection closed and nothing written. -/
theorem posted_page_is_silent : ∃ ls s, (∀ l ∈ ls, Stream.Unhindered l) ∧
    ¬(Stream.machine .bare).Along (fun s _ s' => s.Explains s') .sample ls ∧
    (Stream.machine .bare).exec .sample ls = some s ∧ s.conn.http.error_ = true ∧
    s.conn.http.connectionState_ = .disconnected ∧ s.conn.wire.sent = [] := by
  let ls := delivery (bytes "POST /form HTTP/1.1\r\nContent-Length: 0\r\n\r\n")
  obtain ⟨s, reached, silent⟩ := Machine.exec_any (M := Stream.machine .bare)
    (fun s => s.conn.http.error_ = true ∧ s.conn.http.connectionState_ = .disconnected ∧
      s.conn.wire.sent = []) .sample ls (by decide)
  exact ⟨ls, s, by decide, by decide, reached, silent⟩

end LightAgent

import LightAgent.HttpData.Rejections

/-!
# Complete requests

A complete request is answered or rejected with what has come of it, and what follows it in the
buffer makes no difference. Every idle connection deals with it in the same way.
-/
namespace LightAgent

open Library

/-- The block rejects the request it is given. -/
def Rejects (w : World) (s : Conn) (r : Bytes) : Prop :=
  (readBlock w (s.received r)).http.error_ = true

/-- Whatever the files are when it comes, the request is answered and leaves nothing in
the buffer, or is rejected, when it comes alone in one event to some idle connection. -/
def CompleteAlone (w : World) (r : Bytes) : Prop :=
  ∀ n, ∃ s a, Idle s ∧ w.fs s.wire.served = w.fs n ∧ a.Brings r ∧
    ((readBlock w (s.meets a EPOLLIN)).finished ∧
      (readBlock w (s.meets a EPOLLIN)).http.inBuffer_ = [] ∨
    (readBlock w (s.meets a EPOLLIN)).http.error_ = true)

theorem AnsweredAlone.complete {w : World} {r : Bytes} (alone : AnsweredAlone w r) :
    CompleteAlone w r := by
  intro n
  obtain ⟨s, a, idle, files, brings, answered⟩ := alone n
  exact ⟨s, a, idle, files, brings, .inl answered⟩

/-! ### The same request on two connections -/

theorem SameRequest.ready {s t : Conn} (same : SameRequest s t) (ready : s.http.Ready) :
    t.http.Ready := by
  refine ⟨same.state_.trans ready.state, fun post => ?_⟩
  rw [same.inBuffer_, HttpData.getContentLength_congr same.headers_]
  exact ready.body (same.method_.symm.trans post)

/-- Two connections have failed and have sent the same page, or none. -/
structure FailAlike (s t s' t' : Conn) : Prop where
  left : s'.http.error_ = true
  right : t'.http.error_ = true
  sent : ∃ page, s'.wire.sent = s.wire.sent ++ page ∧ t'.wire.sent = t.wire.sent ++ page

theorem FailAlike.page {s t : Conn} (free : Unblocked s.wire.writes)
    (free' : Unblocked t.wire.writes) (err_num : Nat) (msg : Bytes)
    (failed : s.http.error_ = true) (failed' : t.http.error_ = true) :
    FailAlike s t (handleError s err_num msg) (handleError t err_num msg) :=
  ⟨failed, failed', _, (handleError_unblocked free err_num msg).1,
    (handleError_unblocked free' err_num msg).1⟩

theorem analyse_error {w : World} {s : Conn} (alive : s.http.error_ = false) :
    (analyse w s).http.error_ = true ↔ (analysisRequest w s).2 = .error := by
  obtain ⟨⟨_, _, _, _, http⟩, _, _⟩ := analysisRequest_frame w s
  rcases analyse_cases w s with ⟨success, done⟩ | ⟨failure, done⟩
  · rw [done, success]
    have kept : (analysisRequest w s).1.http.error_ = false := by rw [http]; exact alive
    exact iff_of_false (fun failed => nomatch kept.symm.trans failed) nofun
  · rw [done, failure]
    exact iff_of_true rfl rfl

theorem analyse_sent (w : World) (s : Conn) :
    (analyse w s).wire.sent = (analysisRequest w s).1.wire.sent := by
  rcases analyse_cases w s with ⟨_, done⟩ | ⟨_, done⟩
  · rw [done]
    rfl
  · rw [done]
    rfl

/-- A request that is refused on one connection is refused in the same way on the other. -/
theorem analyse_failAlike {w : World} {s t : Conn} (same : SameRequest s t)
    (files : w.fs t.wire.served = w.fs s.wire.served) (ready : s.http.Ready)
    (alive : s.http.error_ = false) (alive' : t.http.error_ = false)
    (free : Unblocked s.wire.writes) (free' : Unblocked t.wire.writes)
    (failed : (analyse w s).http.error_ = true) : FailAlike s t (analyse w s) (analyse w t) := by
  have refused := (analyse_error alive).mp failed
  have refused' : (analysisRequest w t).2 = .error :=
    (analysisRequest_same same files).1.trans refused
  refine ⟨failed, (analyse_error alive').mpr refused', ?_⟩
  rw [analyse_sent, analyse_sent]
  -- The method and the name decide which exit it is.
  rcases (analysisRequest_outcome w ready free).2 refused with ⟨other, page⟩ | ⟨⟨post, file⟩, silent⟩
  · rcases (analysisRequest_outcome w (same.ready ready) free').2 refused' with
      ⟨_, page'⟩ | ⟨⟨post, _⟩, _⟩
    · exact ⟨_, page, page'⟩
    · exact absurd (same.method_.symm.trans post) other
  · rcases (analysisRequest_outcome w (same.ready ready) free').2 refused' with
      ⟨other, _⟩ | ⟨_, silent'⟩
    · exact absurd (same.method_.trans post) other
    · exact ⟨[], silent.trans (List.append_nil _).symm, silent'.trans (List.append_nil _).symm⟩

/-- A request that a connection rejects, every other one at the same bytes rejects. -/
theorem endBlock_failAlike {w : World} {s t : Conn} (same : SameStart s t)
    (files : w.fs t.wire.served = w.fs s.wire.served) (between : s.http.Between)
    (alive : s.http.error_ = false) (alive' : t.http.error_ = false)
    (free : Unblocked s.wire.writes) (free' : Unblocked t.wire.writes)
    (failed : (endBlock w (parseStages w s)).http.error_ = true) :
    FailAlike s t (endBlock w (parseStages w s)) (endBlock w (parseStages w t)) := by
  have stages := parseStages_same w same
  cases done : parseStages w s with
  | error s' =>
    rw [done] at stages failed
    generalize parseStages w t = r at stages
    cases stages with
    | waits h k kept _ => exact nomatch (kept.trans alive).symm.trans failed
    | rejects h k msg rejected rejected' =>
      obtain ⟨left, right, sent⟩ := FailAlike.page (s := s.setHttp h) (t := t.setHttp k) free free'
        400 msg rejected rejected'
      exact ⟨left, right, sent⟩
  | ok s' =>
    have ready := parseStages_ready between done
    rw [done] at stages failed
    generalize parseStages w t = r at stages
    cases stages with
    | goesOn h k same' kept kept' =>
      -- Both requests are complete, so both come to the analysis.
      have now : endBlock w (.ok (s.setHttp h)) = analyse w (s.setHttp h) := if_pos ready.state
      have now' : endBlock w (.ok (t.setHttp k)) = analyse w (t.setHttp k) :=
        if_pos (same'.ready ready).state
      rw [now] at failed ⊢
      rw [now']
      obtain ⟨left, right, sent⟩ := analyse_failAlike same' files ready (kept.trans alive)
        (kept'.trans alive') free free' failed
      exact ⟨left, right, sent⟩

theorem Rejects.elsewhere {w : World} {s t : Conn} {r : Bytes} (idle : Idle s) (idle' : Idle t)
    (files : w.fs t.wire.served = w.fs s.wire.served) (rejects : Rejects w s r) :
    Rejects w t r := by
  have settled := idle.settled.received r
  have settled' := idle'.settled.received r
  unfold Rejects at rejects ⊢
  rw [settled.block] at rejects
  rw [settled'.block]
  exact (endBlock_failAlike (idle.sameStart idle' r) files settled.between settled.here.error_
    settled'.here.error_ settled.quiet.writes settled'.quiet.writes rejects).right

theorem Rejects.solid {w : World} {s : Conn} {r : Bytes} (idle : Idle s)
    (rejects : Rejects w s r) : r ≠ [] := by
  rintro rfl
  have nothing := readBlock_idle (w := w) (idle.settled.received []) idle.state
    (idle.received_buffer [])
  unfold Rejects at rejects
  rw [nothing] at rejects
  exact nomatch idle.settled.here.error_.symm.trans rejects

/-- Every idle connection answers a complete request or rejects it. -/
theorem CompleteAlone.outcome {w : World} {r : Bytes} (complete : CompleteAlone w r)
    (small : r.length < 2 ^ 31) {t : Conn} (idle : Idle t) : Answers w t r ∨ Rejects w t r := by
  obtain ⟨s, a, idle', files, brings, ends⟩ := complete t.wire.served
  obtain ⟨begins, block⟩ := idle'.meets (w := w) brings small
  rw [block] at ends
  rcases ends with ⟨finished, used⟩ | failed
  · exact .inl (Answers.elsewhere begins idle files.symm ⟨finished, used⟩)
  · exact .inr (Rejects.elsewhere begins idle files.symm failed)

/-! ### Requests one by one -/

theorem takes_failed {w : World} {s : Conn} (failed : s.http.error_ = true) (rs : List Bytes) :
    Takes w s rs ∧ serveAll w s rs = s := by
  induction rs with
  | nil => exact ⟨trivial, rfl⟩
  | cons r rs ih =>
    obtain ⟨takes, stays⟩ := ih
    have same : serve w s r = s := serve_failed failed r
    refine ⟨⟨fun alive => absurd (failed.symm.trans alive) (by simp), same.symm ▸ takes⟩, ?_⟩
    change serveAll w (serve w s r) rs = s
    rw [same]
    exact stays

/-- Each of the requests finds the connection idle or closed. -/
theorem serveAll_complete {w : World} {s : Conn} {rs : List Bytes} (idle : Idle s)
    (small : ∀ r ∈ rs, r.length < 2 ^ 31) (complete : ∀ r ∈ rs, CompleteAlone w r) :
    Takes w s rs ∧ ((serveAll w s rs).http.error_ = false → Idle (serveAll w s rs)) := by
  induction rs generalizing s with
  | nil => exact ⟨trivial, fun _ => idle⟩
  | cons r rs ih =>
    have small' := small r List.mem_cons_self
    have step : serve w s r = handleRead w (s.received r) :=
      serve_alive idle.settled.here.error_ r
    have takes := idle.takes small'
    rcases (complete r List.mem_cons_self).outcome small' idle with answers | rejects
    · have idle' : Idle (serve w s r) := by rw [step]; exact answers.idle idle
      obtain ⟨later, last⟩ := ih idle' (fun r member => small r (List.mem_cons_of_mem _ member))
        (fun r member => complete r (List.mem_cons_of_mem _ member))
      exact ⟨⟨fun _ => takes, later⟩, last⟩
    · -- A rejection closes the connection, and the others are not looked at.
      have failed : (serve w s r).http.error_ = true := by
        rw [step, handleRead_failed rejects]
        exact rejects
      obtain ⟨later, stays⟩ := takes_failed (w := w) failed rs
      refine ⟨⟨fun _ => takes, later⟩, fun alive => ?_⟩
      change (serveAll w (serve w s r) rs).http.error_ = false at alive
      rw [stays] at alive
      exact nomatch failed.symm.trans alive

/-- Complete requests that come together in one read are answered or rejected like the same
requests coming one by one. -/
theorem complete_pipelined {w : World} {s : Conn} {rs : List Bytes} {a : Arrival} {as : List Arrival}
    (idle : Idle s) (small : rs.flatten.length < 2 ^ 31) (complete : ∀ r ∈ rs, CompleteAlone w r)
    (together : a.Brings rs.flatten) (alone : List.Forall₂ Arrival.Brings as rs) :
    SameOutcome (arrivals w s as) (arrive w s a) ∧
      ((arrive w s a).http.error_ = false → Idle (arrive w s a)) := by
  have each : ∀ r ∈ rs, r.length < 2 ^ 31 := fun r member =>
    Nat.lt_of_le_of_lt (List.sublist_flatten_of_mem member).length_le small
  have solid : [] ∉ rs := fun member =>
    ((complete [] member).outcome (each [] member) idle).elim
      (fun answers => answers.solid idle rfl) (fun rejects => rejects.solid idle rfl)
  obtain ⟨takes, last⟩ := serveAll_complete idle each complete
  have onebyone := arrivals_same (fun _ => idle.settled) alone takes
  have same := arrivals_pipelined idle small solid takes together alone
  refine ⟨same, fun alive => ?_⟩
  have served := onebyone.trans same
  have alive' := served.error_.symm.trans alive
  exact (last alive').alike (served.alike alive')

end LightAgent

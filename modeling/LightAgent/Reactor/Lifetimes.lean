import LightAgent.Reactor.Noninterference

/-!
# Connections that nothing refers to

An `HttpData` is destroyed with the last `shared_ptr` to it. `Referenced` says that none outlives
its references: each connection that is there is in a table, has a timeout, waits to enter its
loop, or is still held by `handNewConn`.
-/
namespace LightAgent

open Library Function

namespace Reactor

variable {r r' : Reactor} {c d : ConnId} {cl : Client}

/-- `held`, by what a step does to a connection. -/
theorem held_iff (sound : r.Sound) (alive : r.conns c = some cl) : r.held c cl.http ↔
    (r.view cl).listed ∨ (r.view cl).deadlines ≠ [] ∨
      c ∈ (r.loops cl.http.loop_).pendingFunctors_ ++ (r.loops cl.http.loop_).point.bound ∨
      r.req_info = some c := by
  have this := (sound.named c cl alive).1
  have watched : (r.view cl).deadlines ≠ [] ↔
      ∃ node ∈ (r.loops cl.http.loop_).epoll.timerManager_.timerNodeQueue,
        node.SPHttpData = some c := by
    unfold Conn.deadlines view
    rw [ne_eq, ← TimerManager.detached_iff]
    simp [TimerManager.Detached, this]
  unfold held Conn.listed
  rw [watched, List.mem_append, or_assoc]
  simp only [view, this]

/-- Nothing is left of a connection without references. -/
def Referenced (r : Reactor) : Prop :=
  ∀ c cl, r.conns c = some cl → r.held c cl.http

theorem referenced_new : new.Referenced := by
  intro c cl alive
  cases alive

theorem release_req_info (r : Reactor) (d : ConnId) : (r.release d).req_info = r.req_info := by
  unfold release
  split
  · rfl
  · dsimp only
    split <;> rfl

/-- What is left behind `release` of the connection is referenced. -/
theorem release_held (alive : (r.release c).conns c = some cl) :
    (r.release c).held c cl.http := by
  unfold release at alive ⊢
  cases there : r.conns c with
  | none =>
    simp only [there] at alive
    cases alive
  | some old =>
    simp only [there] at alive ⊢
    by_cases held : r.held c old.http
    · simp only [if_pos held] at alive ⊢
      cases there.symm.trans alive
      exact held
    · simp [if_neg held] at alive

/-- `release` drops no reference. -/
theorem held_release {h : HttpData} (held : r.held c h) (d : ConnId) : (r.release d).held c h := by
  obtain ⟨http, _, timers, pending, point⟩ := release_loop r d h.loop_
  unfold Reactor.held
  dsimp only
  rw [http, timers, pending, point, release_req_info]
  exact held

theorem alive_of_release (alive : (r.release d).conns c = some cl) : r.conns c = some cl := by
  rcases release_conns r d with stays | ⟨_, _, conns, _⟩
  · exact stays ▸ alive
  · exact (of_update_none (conns ▸ alive)).2

theorem releases_held {cs : List ConnId} (member : c ∈ cs)
    (alive : (cs.foldl release r).conns c = some cl) : (cs.foldl release r).held c cl.http := by
  have alive_of (ds : List ConnId) {r : Reactor} (alive : (ds.foldl release r).conns c = some cl) :
      r.conns c = some cl := by
    induction ds generalizing r with
    | nil => exact alive
    | cons d ds ih => exact alive_of_release (ih alive)
  have held_of (ds : List ConnId) {r : Reactor} (held : r.held c cl.http) :
      (ds.foldl release r).held c cl.http := by
    induction ds generalizing r with
    | nil => exact held
    | cons d ds ih => exact ih (held_release held d)
  induction cs generalizing r with
  | nil => cases member
  | cons d ds ih =>
    rcases List.mem_cons.mp member with rfl | later
    · exact held_of ds (release_held (alive_of ds alive))
    · exact ih later alive

/-- In its loop a connection is what it is there. -/
theorem mirrors_view (sound : r.Sound) (timed : r.Timed) (alive : r.conns c = some cl) :
    Mirrors r cl (r.view cl) := by
  obtain ⟨this, held, _⟩ := sound.named c cl alive
  exact ⟨.refl (held.trans (congrArg some this.symm)), _, timed.conn sound alive ⟨[], [], ⟨0, 0⟩, true⟩⟩

/-- What is reported of a connection is nothing to its entry and its timeout. -/
theorem reported_slots (w : World) {es : List Encounter} (reports : ∀ e ∈ es, ∃ ready, e = .reported ready)
    (s : Conn) : ((es.foldl (Conn.encounter w) s).listed ↔ s.listed) ∧
      (es.foldl (Conn.encounter w) s).deadlines = s.deadlines := by
  induction es generalizing s with
  | nil => exact ⟨Iff.rfl, rfl⟩
  | cons e es ih =>
    obtain ⟨⟨ready, rfl⟩, later⟩ := List.forall_mem_cons.mp reports
    have here : ((s.reported ready).listed ↔ s.listed) ∧
        (s.reported ready).deadlines = s.deadlines := by
      obtain ⟨channel, interest, same⟩ := s.reported_frame ready
      rw [same]
      exact ⟨Iff.rfl, rfl⟩
    obtain ⟨listed, deadlines⟩ := ih later (s.reported ready)
    exact ⟨listed.trans here.1, deadlines.trans here.2⟩

/-- A step that calls no handler of the connection keeps its entry and its timeout. -/
theorem idle_slots {w : ConnId → World} {l : Label} (sound : r.Sound) (timed : r.Timed)
    (taken : step w r l = some r') (idle : r.subject l ≠ some c) (alive : r.conns c = some cl)
    {cl' : Client} (alive' : r'.conns c = some cl') : cl'.http.loop_ = cl.http.loop_ ∧
      ((r'.view cl').listed ↔ (r.view cl).listed) ∧
      (r'.view cl').deadlines = (r.view cl).deadlines := by
  have mirrors := step_mirrors sound timed taken alive (mirrors_view sound timed alive) alive'
  have reports : ∀ e ∈ encounters c r l, ∃ ready, e = .reported ready := by
    intro e member
    cases encounters_occurs member with
    | @reported _ _ _ _ ready _ _ _ => exact ⟨ready, rfl⟩
    | handled own => exact absurd own idle
    | enters own => exact absurd own idle
    | expires own => exact absurd own idle
  obtain ⟨listed, deadlines⟩ := reported_slots (w c) reports (r.view cl)
  refine ⟨?_, mirrors.counterpart.listed.symm.trans listed,
    mirrors.counterpart.deadlines.symm.trans deadlines⟩
  have before := (sound.named c cl alive).2.2
  rcases LeftAlone.step taken idle with left | ⟨made, _⟩
  · obtain ⟨old, channel, there, rfl⟩ := left cl' alive'
    cases alive.symm.trans there
    rfl
  · exact absurd made (Nat.ne_of_lt before)

/-- Such a step leaves it its references, as long as what waits for it is kept. -/
theorem held_of_idle {w : ConnId → World} {l : Label} (sound : r.Sound) (timed : r.Timed)
    (taken : step w r l = some r') (idle : r.subject l ≠ some c) (alive : r.conns c = some cl)
    {cl' : Client} (alive' : r'.conns c = some cl')
    (queues : c ∈ (r.loops cl.http.loop_).pendingFunctors_ ++ (r.loops cl.http.loop_).point.bound →
      c ∈ (r'.loops cl.http.loop_).pendingFunctors_ ++ (r'.loops cl.http.loop_).point.bound)
    (local_ : r.req_info = some c → r'.req_info = some c) (held : r.held c cl.http) :
    r'.held c cl'.http := by
  obtain ⟨loop_, listed, deadlines⟩ := idle_slots sound timed taken idle alive alive'
  rw [held_iff (sound.step r l r' taken) alive', listed, deadlines, loop_]
  exact ((held_iff sound alive).mp held).imp_right (.imp_right (.imp queues local_))

/-- What has been queued in a loop stays there until `doPendingFunctors` is done. -/
theorem step_queues {w : ConnId → World} {l : Label} (taken : step w r l = some r')
    (ends : ∀ ℓ, l ≠ .endFunctors ℓ) (ℓ' : LoopId)
    (queued : c ∈ (r.loops ℓ').pendingFunctors_ ++ (r.loops ℓ').point.bound) :
    c ∈ (r'.loops ℓ').pendingFunctors_ ++ (r'.loops ℓ').point.bound := by
  have stored {s t : Reactor} {d : ConnId} {a : Arrival} {handler : Conn → Conn}
      (called : s.call d a handler = some t) :
      (t.loops ℓ').pendingFunctors_ = (s.loops ℓ').pendingFunctors_ ∧
        (t.loops ℓ').point = (s.loops ℓ').point := by
    obtain ⟨dl, _, rfl⟩ := Option.map_eq_some_iff.mp called
    exact ⟨setEpoll_pending s _ _ ℓ', setEpoll_point s _ _ ℓ'⟩
  have moved {point : LoopPoint} {ℓ : LoopId}
      (kept : c ∈ (r.loops ℓ).pendingFunctors_ ++ (r.loops ℓ).point.bound →
        c ∈ (r.loops ℓ).pendingFunctors_ ++ point.bound) :
      c ∈ ((r.setPoint ℓ point).loops ℓ').pendingFunctors_ ++
        ((r.setPoint ℓ point).loops ℓ').point.bound := by
    rw [setPoint_pending]
    by_cases here : ℓ' = ℓ
    · subst here
      rw [setPoint_point]
      exact kept queued
    · rw [setPoint_of_ne r ℓ here]
      exact queued
  cases step_steps taken with
  | accept fd ℓ nonBlocking _ _ =>
    rw [acceptConn_point]
    unfold acceptConn
    split
    · exact queued
    · dsimp only
      split
      · exact queued
      · change c ∈ ((r.queueInLoop ℓ r.nextConn).loops ℓ').pendingFunctors_ ++ _
        rw [(queueInLoop_loop r ℓ r.nextConn ℓ').2.2]
        simp only [List.mem_append] at queued ⊢
        exact queued.imp_left .inl
  | accepted d _ =>
    obtain ⟨_, _, _, pending, point⟩ := release_loop { r with req_info := none } d ℓ'
    rw [pending, point]
    exact queued
  | poll ℓ events woken point _ =>
    obtain ⟨_, _, _, pending, before⟩ := reports_loop r ℓ events ℓ'
    unfold pollEvents
    dsimp only
    rw [setPoint_pending, pending]
    by_cases here : ℓ' = ℓ
    · subst here
      rw [setPoint_point]
      rw [point] at queued
      split
      · exact queued
      · exact queued
    · rw [setPoint_of_ne _ ℓ here, before]
      exact queued
  | handle ℓ a d ret r₁ point called =>
    obtain ⟨_, _, _, pending, after⟩ := release_loop r₁ d ℓ'
    rw [pending, after, (stored called).1, (stored called).2]
    exact moved fun queued => by rwa [point] at queued
  | startFunctors ℓ point =>
    unfold swapFunctors
    by_cases here : ℓ' = ℓ
    · subst here
      rw [point] at queued
      simpa [LoopPoint.bound] using queued
    · simpa [here] using queued
  | runFunctor ℓ a done d rest _ point called =>
    rw [(stored called).1, (stored called).2]
    exact moved fun queued => by simpa [point, LoopPoint.bound] using queued
  | endFunctors ℓ done _ => exact absurd rfl (ends ℓ)
  | drop ℓ a node _ _ _ =>
    rw [pop_point, show ((r.pop ℓ node.id).loops ℓ').pendingFunctors_ = _ from setEpoll_pending r ℓ _ ℓ']
    exact queued
  | close ℓ a node d r₁ _ _ _ called =>
    obtain ⟨_, _, _, pending, after⟩ := release_loop r₁ d ℓ'
    rw [pending, after, (stored called).1, (stored called).2, pop_point,
      show ((r.pop ℓ node.id).loops ℓ').pendingFunctors_ = _ from setEpoll_pending r ℓ _ ℓ']
    exact queued
  | endExpire ℓ now point => exact moved fun queued => by rwa [point] at queued

theorem reports_req_info (ℓ : LoopId) (r : Reactor) (events : List (Fd × Ready)) :
    (events.foldl (report ℓ) r).req_info = r.req_info := by
  induction events generalizing r with
  | nil => rfl
  | cons e events ih =>
    refine (ih (report ℓ r e)).trans ?_
    unfold report
    dsimp only
    split <;> rfl

/-- Only the accepting thread works on its local. -/
theorem kept_req_info {w : ConnId → World} {l : Label} (taken : step w r l = some r')
    (makes : ∀ fd ℓ nonBlocking, l ≠ .accept fd ℓ nonBlocking) (holds : l ≠ .accepted) :
    r'.req_info = r.req_info := by
  have called {s t : Reactor} {d : ConnId} {a : Arrival} {handler : Conn → Conn}
      (called : s.call d a handler = some t) : t.req_info = s.req_info := by
    obtain ⟨dl, _, rfl⟩ := Option.map_eq_some_iff.mp called
    rfl
  have released (s : Reactor) (ds : List ConnId) : (ds.foldl release s).req_info = s.req_info := by
    induction ds generalizing s with
    | nil => rfl
    | cons d ds ih => exact (ih (s.release d)).trans (release_req_info s d)
  cases step_steps taken with
  | accept fd ℓ nonBlocking _ _ => exact absurd rfl (makes fd ℓ nonBlocking)
  | accepted d _ => exact absurd rfl holds
  | poll ℓ events woken _ _ => exact reports_req_info ℓ r events
  | handle ℓ a d ret r₁ _ handled =>
    have kept := called handled
    exact (release_req_info r₁ d).trans kept
  | startFunctors ℓ _ => rfl
  | runFunctor ℓ a done d rest _ _ ran =>
    have kept := called ran
    exact kept
  | endFunctors ℓ done _ => exact released _ done
  | drop ℓ a node _ _ _ => rfl
  | close ℓ a node d r₁ _ _ _ closed =>
    have kept := called closed
    exact (release_req_info r₁ d).trans kept
  | endExpire ℓ now _ => rfl

/-- `handNewConn` holds what it has made until the turn of its loop ends. -/
theorem step_req_info {w : ConnId → World} {l : Label} (taken : step w r l = some r')
    (holds : l ≠ .accepted) (held : r.req_info = some c) : r'.req_info = some c := by
  by_cases makes : ∃ fd ℓ nonBlocking, l = .accept fd ℓ nonBlocking
  · obtain ⟨fd, ℓ, nonBlocking, rfl⟩ := makes
    -- It makes one connection at a time.
    cases step_steps taken with
    | accept _ _ _ free _ => cases free.symm.trans held
  · push Not at makes
    exact (kept_req_info taken makes holds).trans held

/-- A connection that was not there before waits to enter its loop. -/
theorem born_held {w : ConnId → World} {l : Label} (sound : r.Sound)
    (taken : step w r l = some r') (unborn : r.conns c = none) (alive' : r'.conns c = some cl) :
    r'.held c cl.http := by
  have idle : r.subject l ≠ some c := by
    intro own
    obtain ⟨cl, alive⟩ := subject_alive taken own
    cases unborn.symm.trans alive
  rcases LeftAlone.step taken idle with left | ⟨made, _⟩
  · obtain ⟨old, _, alive, _⟩ := left cl alive'
    cases unborn.symm.trans alive
  · rcases step_nextConn taken with same | ⟨fd, ℓ, nonBlocking, _, _, rfl⟩
    · have named := (sound.step r l r' taken).named c cl alive'
      rw [same, made] at named
      exact absurd named.2.2 (Nat.lt_irrefl _)
    · right; right; right; right
      subst made
      unfold acceptConn at alive' ⊢
      split at alive'
      next => cases unborn.symm.trans alive'
      next small =>
        rw [if_neg small]
        dsimp only at alive' ⊢
        split at alive'
        next => cases unborn.symm.trans alive'
        next ready => rw [if_neg ready]

/-- A step drops no connection's last reference without destroying it. -/
theorem Referenced.step {w : ConnId → World} {l : Label} (referenced : r.Referenced)
    (sound : r.Sound) (timed : r.Timed) (taken : Reactor.step w r l = some r') :
    r'.Referenced := by
  intro c cl' alive'
  cases alive : r.conns c with
  | none => exact born_held sound taken alive alive'
  | some cl =>
    have before := referenced c cl alive
    -- A step that is none of the connection's and ends no vector of functors.
    have quiet (ends : ∀ ℓ, l ≠ .endFunctors ℓ) (holds : l ≠ .accepted)
        (idle : r.subject l ≠ some c) : r'.held c cl'.http :=
      held_of_idle sound timed taken idle alive alive' (step_queues taken ends _)
        (step_req_info taken holds) before
    cases step_steps taken with
    | accept fd ℓ nonBlocking _ _ => exact quiet (by simp) (by simp) (by simp [subject])
    | accepted d local_ =>
      by_cases same : c = d
      · subst same
        exact release_held alive'
      · refine held_of_idle sound timed taken (by simp [subject]) alive alive' (step_queues taken (by simp) _)
          (fun held => ?_) before
        exact absurd (Option.some.inj (held.symm.trans local_)) same
    | poll ℓ events woken point _ => exact quiet (by simp) (by simp) (by simp [subject])
    | handle ℓ a d ret r₁ point called =>
      by_cases same : c = d
      · subst same
        exact release_held alive'
      · refine quiet (by simp) (by simp) fun own => same ?_
        simpa [subject, point, LoopPoint.ret] using own.symm
    | startFunctors ℓ point => exact quiet (by simp) (by simp) (by simp [subject])
    | runFunctor ℓ a done d rest _ point called =>
      by_cases same : c = d
      · subst same
        -- The functor that has run still refers to it.
        obtain ⟨dl, alive₁, rfl, waits, _, _, rfl⟩ := sound.functor_inv point called
        cases alive.symm.trans alive₁
        have queued : c ∈ (r.loops cl.http.loop_).pendingFunctors_ ++
            (r.loops cl.http.loop_).point.bound := by
          rcases List.mem_append.mp waits with waiting | pending
          · exact List.mem_append_right _ (waiting_subset _ waiting)
          · exact List.mem_append_left _ pending
        have kept := step_queues taken (by simp) _ queued
        have loop_ := (newEvent_effect (cl.conn a (r.loops cl.http.loop_).epoll)).loop_
        have stored := (update_self c _ _).symm.trans alive'
        cases stored
        refine .inr (.inr ?_)
        rw [loop_, ← or_assoc, ← List.mem_append]
        exact .inl kept
      · refine quiet (by simp) (by simp) fun own => same ?_
        simpa [subject, point, LoopPoint.waiting] using own.symm
    | endFunctors ℓ done point =>
      by_cases member : c ∈ done
      · exact releases_held member alive'
      · refine held_of_idle sound timed taken (by simp [subject]) alive alive' (fun queued => ?_)
          (step_req_info taken (by simp)) before
        obtain ⟨_, _, _, pending, after⟩ := releases_loop (r.setPoint ℓ .expiring) done cl.http.loop_
        rw [pending, after, setPoint_pending]
        by_cases here : cl.http.loop_ = ℓ
        · subst here
          rw [setPoint_point]
          rw [point] at queued
          simpa [LoopPoint.bound, member] using queued
        · rw [setPoint_of_ne r ℓ here]
          exact queued
    | drop ℓ a node point found idle =>
      refine quiet (by simp) (by simp) fun own => ?_
      simp [subject, found, idle] at own
    | close ℓ a node d r₁ point found refers called =>
      by_cases same : c = d
      · subst same
        exact release_held alive'
      · refine quiet (by simp) (by simp) fun own => same ?_
        simpa [subject, found, refers] using own.symm
    | endExpire ℓ now point => exact quiet (by simp) (by simp) (by simp [subject])

end Reactor
end LightAgent

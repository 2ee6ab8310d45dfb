import LightAgent.Reactor.Confinement
import LightAgent.Reactor.Timers
import LightAgent.TimerExpiry

/-!
# A loop comes back to its poll

Between two calls of `Epoll::poll` a loop handles what was handed out, runs the functors that are
there when it swaps, and pops nodes. `work` bounds the steps that are left of the turn; only the
accepting thread can add to it. And whatever the kernel answers, some step can be taken.
-/
namespace LightAgent

open Library Function

/-- `seperateTimer` clears a node in its place. -/
theorem seperateTimer_length (s : Conn) :
    (seperateTimer s).epoll.timerManager_.timerNodeQueue.length =
      s.epoll.timerManager_.timerNodeQueue.length := by
  unfold seperateTimer
  split
  · simp [Conn.setTimers, TimerManager.clearReq]
  · rfl

theorem add_timer_length (s : Conn) (timeout : Nat) :
    (add_timer s timeout).epoll.timerManager_.timerNodeQueue.length ≤
      s.epoll.timerManager_.timerNodeQueue.length + 1 := by
  unfold add_timer
  split
  · simp [addTimer, Conn.setTimers, TimerManager.addTimer]
  · exact Nat.le_succ _

theorem newEvent_length (s : Conn) : (newEvent s).epoll.timerManager_.timerNodeQueue.length ≤
    s.epoll.timerManager_.timerNodeQueue.length + 1 := by
  rw [(newEvent_entered s).timers.timerManager_]
  exact add_timer_length s _

/-- A handler makes one node at most. -/
theorem handleEvents_length (w : World) (s : Conn) :
    (handleEvents w s).epoll.timerManager_.timerNodeQueue.length ≤
      s.epoll.timerManager_.timerNodeQueue.length + 1 := by
  have settled : (decided w s).epoll.timerManager_.timerNodeQueue.length =
      s.epoll.timerManager_.timerNodeQueue.length := by
    rw [(decided_timer w s).timerManager_]
    exact seperateTimer_length s
  rw [← settled]
  cases handleEvents_handled w s with
  | ignored _ eq =>
    rw [eq, settled]
    exact Nat.le_succ _
  | rearmed events timeout _ _ _ modified =>
    rw [modified.timers.timerManager_]
    exact add_timer_length ((decided w s).setEvents events) timeout
  | stranded _ _ eq =>
    rw [eq]
    exact Nat.le_succ _
  | closed _ _ closed =>
    rw [closed.timers.timerManager_]
    exact Nat.le_succ _

/-- A bound on the steps that the loop still takes before it polls. -/
def Loop.work (loop : Loop) : Nat :=
  let nodes := loop.epoll.timerManager_.timerNodeQueue.length
  match loop.point with
  | .polling => 0
  | .handling ret => nodes + 2 * ret.length + 2 * loop.pendingFunctors_.length + 3
  | .functors _ rest => nodes + 2 * rest.length + 2
  | .expiring => nodes + 1

namespace Reactor

variable {r r' : Reactor} {ℓ : LoopId} {l : Label}

/-- A step of the loop itself counts. -/
def Label.cost (ℓ : LoopId) (l : Label) : Nat := if l.thread = some ℓ then 1 else 0

/-- A connection that is handed over is a functor to run and a node to pop. -/
def Label.gain (ℓ : LoopId) : Label → Nat
  | .accept _ ℓ' _ => if ℓ' = ℓ then 2 else 0
  | _ => 0

/-- What the step meets is this. -/
def Label.Meets (a : Arrival) : Label → Prop
  | .handle _ b | .runFunctor _ b | .expire _ _ b => b = a
  | .endExpire _ now => now = a.now
  | _ => True

theorem work_congr {loop loop' : Loop} (timers : loop'.epoll.timerManager_ = loop.epoll.timerManager_)
    (pending : loop'.pendingFunctors_ = loop.pendingFunctors_) (point : loop'.point = loop.point) :
    loop'.work = loop.work := by
  unfold Loop.work
  rw [timers, pending, point]

theorem LoopFrame.work {loop loop' : Loop} (frame : LoopFrame loop loop') : loop'.work = loop.work :=
  work_congr frame.timerManager_ frame.pendingFunctors_ frame.point

/-- The loop of a connection behind a handler of it. -/
theorem store_loop (r : Reactor) (c : ConnId) {s : Conn} (own : s.http.loop_ = ℓ) :
    (r.store c s).loops ℓ = { r.loops ℓ with epoll := s.epoll } := by
  subst own
  exact update_self _ _ _

theorem accept_work (r : Reactor) (fd : Fd) (ℓ' : LoopId) (nonBlocking : Bool) (ℓ : LoopId) :
    ((r.acceptConn fd ℓ' nonBlocking).loops ℓ).work ≤
      (r.loops ℓ).work + Label.gain ℓ (.accept fd ℓ' nonBlocking) := by
  have epoll := acceptConn_epoll r ℓ' fd nonBlocking ℓ
  have point := acceptConn_point r ℓ' fd nonBlocking ℓ
  have pending : ((r.acceptConn fd ℓ' nonBlocking).loops ℓ).pendingFunctors_.length ≤
      (r.loops ℓ).pendingFunctors_.length + if ℓ' = ℓ then 1 else 0 := by
    unfold acceptConn
    split
    · exact Nat.le_add_right _ _
    · dsimp only
      split
      · exact Nat.le_add_right _ _
      · change ((r.queueInLoop ℓ' r.nextConn).loops ℓ).pendingFunctors_.length ≤ _
        rw [(queueInLoop_loop r ℓ' r.nextConn ℓ).2.2]
        by_cases here : ℓ' = ℓ
        · simp [here]
        · simp [here, Ne.symm here]
  have gain : Label.gain ℓ (.accept fd ℓ' nonBlocking) = 2 * if ℓ' = ℓ then 1 else 0 := by
    change (if ℓ' = ℓ then 2 else 0) = _
    split <;> rfl
  unfold Loop.work
  rw [epoll, point, gain]
  cases (r.loops ℓ).point with
  | handling ret =>
    dsimp only
    omega
  | _ => exact Nat.le_add_right _ _

theorem pop_length {node : TimerNode}
    (found : (r.loops ℓ).epoll.timerManager_.timerNodeQueue.find? (·.id = node.id) = some node) :
    ((r.pop ℓ node.id).loops ℓ).epoll.timerManager_.timerNodeQueue.length <
      (r.loops ℓ).epoll.timerManager_.timerNodeQueue.length := by
  unfold pop
  rw [setEpoll_epoll]
  exact List.length_filter_lt_length_iff_exists.mpr
    ⟨node, List.mem_of_find?_eq_some found, by simp⟩

/-- A step of the loop other than a poll lowers what is left. -/
theorem own_work {w : ConnId → World} (sound : r.Sound) (taken : step w r l = some r')
    (own : l.thread = some ℓ) (goesOn : ∀ events woken, l ≠ .poll ℓ events woken) :
    (r'.loops ℓ).work + 1 ≤ (r.loops ℓ).work := by
  cases step_steps taken with
  | accept fd ℓ₁ nonBlocking _ _ => cases own
  | accepted c _ => cases own
  | poll ℓ₁ events woken _ _ =>
    cases own
    exact absurd rfl (goesOn events woken)
  | handle ℓ₁ a c ret r₁ point called =>
    cases own
    obtain ⟨cl, _, loop, _, _, _, _, rfl⟩ := sound.handle_inv point called
    have loop_ := (handlers_loop (w c) (cl.conn a (r.loops ℓ).epoll)).1.trans loop
    have nodes := handleEvents_length (w c) (cl.conn a (r.loops ℓ).epoll)
    rw [(release_loop _ c ℓ).work, store_loop _ c loop_]
    unfold Loop.work
    rw [setPoint_point, setPoint_pending, point]
    dsimp only [Client.conn] at nodes ⊢
    rw [List.length_cons]
    omega
  | startFunctors ℓ₁ point =>
    cases own
    unfold Loop.work swapFunctors
    rw [point]
    simp
  | runFunctor ℓ₁ a done c rest r₁ point called =>
    cases own
    obtain ⟨cl, _, loop, _, _, _, rfl⟩ := sound.functor_inv point called
    have loop_ := (handlers_loop (w c) (cl.conn a (r.loops ℓ).epoll)).2.1.trans loop
    have nodes := newEvent_length (cl.conn a (r.loops ℓ).epoll)
    rw [store_loop _ c loop_]
    unfold Loop.work
    rw [setPoint_point, point]
    dsimp only [Client.conn] at nodes ⊢
    rw [List.length_cons]
    omega
  | endFunctors ℓ₁ done point =>
    cases own
    rw [(releases_loop _ done ℓ).work]
    unfold Loop.work
    rw [setPoint_point, setPoint_epoll, point]
    dsimp only
    omega
  | drop ℓ₁ a node point found _ =>
    cases own
    have nodes := pop_length found
    unfold Loop.work
    rw [pop_point, point]
    dsimp only
    omega
  | close ℓ₁ a node c r₁ point found refers called =>
    cases own
    obtain ⟨cl, _, loop, _, rfl⟩ := sound.close_inv point found refers called
    have loop_ := (handlers_loop .bare (cl.conn a ((r.pop ℓ node.id).loops ℓ).epoll)).2.2.trans loop
    have nodes := pop_length found
    rw [(release_loop _ c ℓ).work, store_loop _ c loop_]
    unfold Loop.work
    rw [pop_point, point, handleClose_timers]
    dsimp only [Client.conn]
    omega
  | endExpire ℓ₁ now point =>
    cases own
    unfold Loop.work
    rw [setPoint_point, point]
    dsimp only
    omega

theorem step_work {w : ConnId → World} (sound : r.Sound) (taken : step w r l = some r')
    (goesOn : ∀ events woken, l ≠ .poll ℓ events woken) :
    (r'.loops ℓ).work + l.cost ℓ ≤ (r.loops ℓ).work + l.gain ℓ := by
  cases thread : l.thread with
  | some ℓ' =>
    by_cases own : ℓ' = ℓ
    · subst own
      have lowers := own_work sound taken thread goesOn
      unfold Label.cost
      rw [if_pos thread]
      exact lowers.trans (Nat.le_add_right _ _)
    · -- Another loop leaves this one as it is.
      have away := step_away sound thread (Ne.symm own) taken
      have same : r'.loops ℓ = r.loops ℓ := by rw [← part_loop r' ℓ, away, part_loop]
      have other : l.thread ≠ some ℓ := fun eq => own (Option.some.inj (thread.symm.trans eq))
      unfold Label.cost
      rw [same, if_neg other]
      exact Nat.le_add_right _ _
  | none =>
    have none_ : l.cost ℓ = 0 := by
      unfold Label.cost
      rw [if_neg (by rw [thread]; nofun)]
    rw [none_]
    cases step_steps taken with
    | accept fd ℓ' nonBlocking _ _ => exact accept_work r fd ℓ' nonBlocking ℓ
    | accepted c _ =>
      rw [(release_loop { r with req_info := none } c ℓ).work]
      exact Nat.le_refl _
    | _ => cases thread

/-- Where the loop calls a handler next, it returns. -/
def NextReturns (w : ConnId → World) (r : Reactor) (ℓ : LoopId) (a : Arrival) : Prop :=
  ∀ c ∈ (r.loops ℓ).point.ret.head?, HandlerReturns w r c a

/-- Whatever the next call meets, a loop that does not poll can take a step. -/
theorem goes_on {w : ConnId → World} (sound : r.Sound) (timed : r.Timed)
    (busy : (r.loops ℓ).point ≠ .polling) {a : Arrival} (returns : NextReturns w r ℓ a) :
    ∃ l, l.thread = some ℓ ∧ l.Meets a ∧ (step w r l).isSome = true := by
  cases point : (r.loops ℓ).point with
  | polling => exact absurd point busy
  | handling ret =>
    cases ret with
    | nil => exact ⟨.startFunctors ℓ, rfl, trivial, by simp [step, point]⟩
    | cons c ret =>
      obtain ⟨fd, entry⟩ := (sound.ret ℓ).2 c (by rw [point]; exact List.mem_cons_self ..)
      obtain ⟨cl, alive, _⟩ := sound.http ℓ fd c entry
      have alive' : (r.setPoint ℓ (.handling ret)).conns c = some cl := alive
      have returns' : HandlerReturns w r c a := returns c (by rw [point]; rfl)
      exact ⟨.handle ℓ a, rfl, rfl, by simp [step, point, call, alive', returns']⟩
  | functors done rest =>
    cases rest with
    | nil => exact ⟨.endFunctors ℓ, rfl, trivial, by simp [step, point]⟩
    | cons c rest =>
      obtain ⟨cl, alive, _⟩ := sound.bound ℓ c (by rw [point]; simp [LoopPoint.bound])
      have alive' : (r.setPoint ℓ (.functors (done ++ [c]) rest)).conns c = some cl := alive
      exact ⟨.runFunctor ℓ a, rfl, rfl, by simp [step, point, call, alive']⟩
  | expiring =>
    by_cases empty : (r.loops ℓ).epoll.timerManager_.timerNodeQueue = []
    · exact ⟨.endExpire ℓ a.now, rfl, rfl, by simp [step, point, empty]⟩
    -- The node at the top is popped, or ends the sweep.
    · have top := leastNode_isTop _ empty
      generalize leastNode _ empty = node at top
      by_cases due : node.deleted_ = true ∨ node.expiredTime_ ≤ a.now.msec
      · obtain ⟨r', taken, _⟩ := step_pop w sound point (timed.linked ℓ).ids top due
        exact ⟨.expire ℓ node.id a, rfl, rfl, by rw [taken]; rfl⟩
      · have ends : ∃ node ∈ (r.loops ℓ).epoll.timerManager_.timerNodeQueue,
            isTop (r.loops ℓ).epoll.timerManager_.timerNodeQueue node ∧ node.deleted_ = false ∧
              a.now.msec < node.expiredTime_ :=
          ⟨node, top.1, top, by simpa using fun deleted => due (.inl deleted),
            Nat.not_le.mp fun late => due (.inr late)⟩
        refine ⟨.endExpire ℓ a.now, rfl, rfl, ?_⟩
        simp only [step]
        rw [if_pos ⟨point, .inr ends⟩]
        rfl

/-- In a run without a poll of the loop, the loop takes no more steps than it has left, and two for
each connection that is handed over to it meanwhile. -/
theorem work_spent {w : ConnId → World} (sound : r.Sound) {ls : List Label}
    (run : (machine w).exec r ls = some r')
    (goesOn : ∀ l ∈ ls, ∀ events woken, l ≠ .poll ℓ events woken) :
    (r'.loops ℓ).work + (ls.map (Label.cost ℓ)).sum ≤
      (r.loops ℓ).work + (ls.map (Label.gain ℓ)).sum :=
  Machine.exec_potential (M := machine w) (I := Sound) (fun r => (r.loops ℓ).work) _ _
    (fun _ l _ member sound taken => step_work sound taken (goesOn l member)) Sound.step sound run

theorem poll_work (r : Reactor) (ℓ : LoopId) (events : List (Fd × Ready)) (woken : Bool) :
    ((r.pollEvents ℓ events woken).loops ℓ).work ≤
      (r.loops ℓ).epoll.timerManager_.timerNodeQueue.length + 2 * events.length +
        2 * (r.loops ℓ).pendingFunctors_.length + 3 := by
  obtain ⟨_, _, timers, pending, _⟩ := reports_loop r ℓ events ℓ
  have handed := List.length_filterMap_le (fun e => (r.loops ℓ).epoll.fd2chan_ e.1) events
  unfold pollEvents Loop.work
  dsimp only
  rw [setPoint_point, setPoint_pending, setPoint_epoll, timers, pending]
  by_cases idle : events.filterMap (fun e => (r.loops ℓ).epoll.fd2chan_ e.1) = [] ∧ (!woken) = true
  · rw [if_pos idle]
    exact Nat.zero_le _
  · rw [if_neg idle]
    dsimp only
    omega

/-- A turn of a loop ends: behind its poll the loop takes at most one step for each queued node, two
for each event, each functor and each connection that is handed over meanwhile, and three more;
and as long as it is not back at its poll it can take one, whatever that one meets, if the handler
it calls returns. -/
theorem turn_ends {w : ConnId → World} (reached : (machine w).Reachable r) {ℓ : LoopId}
    {events : List (Fd × Ready)} {woken : Bool} {r₁ : Reactor}
    (polled : step w r (.poll ℓ events woken) = some r₁) {ls : List Label}
    (run : (machine w).exec r₁ ls = some r')
    (goesOn : ∀ l ∈ ls, ∀ events woken, l ≠ .poll ℓ events woken) :
    (ls.map (Label.cost ℓ)).sum ≤
        (r.loops ℓ).epoll.timerManager_.timerNodeQueue.length + 2 * events.length +
          2 * (r.loops ℓ).pendingFunctors_.length + 3 + (ls.map (Label.gain ℓ)).sum ∧
      ((r'.loops ℓ).point = .polling ∨
        ∀ a, NextReturns w r' ℓ a →
          ∃ l, l.thread = some ℓ ∧ l.Meets a ∧ (step w r' l).isSome = true) := by
  have sound := (reachable_sound reached).step r _ r₁ polled
  have timed := (reachable_timed reached).step (reachable_sound reached) polled
  have inv : r'.Sound ∧ r'.Timed :=
    Machine.invariant_exec (M := machine w) (I := fun r => r.Sound ∧ r.Timed)
      (fun r l r' inv taken => ⟨inv.1.step r l r' taken, inv.2.step inv.1 taken⟩)
      ⟨sound, timed⟩ run
  constructor
  · have spent := work_spent sound run goesOn
    cases step_steps polled with
    | poll ℓ events woken _ _ =>
      have start := poll_work r ℓ events woken
      omega
  · by_cases back : (r'.loops ℓ).point = .polling
    · exact .inl back
    · exact .inr fun a returns => goes_on inv.1 inv.2 back returns

/-- While a loop serves its connection, another one is handed over to it. -/
def joinedTurn : List Label := [
  .handle 1 (bringing (bytes "GET /hello HTTP/1.1\r\nConnection: keep-alive\r\n\r\n")),
  .accept 6 1 true, .accepted, .startFunctors 1, .runFunctor 1 (quietAt 1), .endFunctors 1]

theorem turn_ends_joinedTurn : ∃ r₁ r',
    (machine fun _ => World.bare).exec new requested = some r₁ ∧
      (machine fun _ => World.bare).exec r₁ joinedTurn = some r' ∧
      (joinedTurn.map (Label.cost 1)).sum ≤
        1 + 2 * 1 + 2 * 0 + 3 + (joinedTurn.map (Label.gain 1)).sum ∧
      ((r'.loops 1).point = .polling ∨ ∀ a, ∃ l, l.thread = some 1 ∧ l.Meets a ∧
        (step (fun _ => World.bare) r' l).isSome = true) := by
  let before : List Label := entering 5 1 ++ [.endExpire 1 ⟨0, 0⟩]
  obtain ⟨r, run, nodes⟩ := Machine.exec_any (M := machine fun _ => World.bare)
    (fun r => (r.loops 1).epoll.timerManager_.timerNodeQueue.length = 1 ∧
      (r.loops 1).pendingFunctors_.length = 0 ∧
      ((machine fun _ => World.bare).exec r
        (.poll 1 [(5, ⟨true, false, false, false⟩)] false :: joinedTurn)).any
          (fun r' => (r'.loops 1).point.ret = []))
    new before (by decide +kernel)
  have allowed : (machine fun _ => World.bare).Along (fun _ _ _ => True) new before := by
    decide +kernel
  obtain ⟨nodes, pending, goesOn⟩ := nodes
  obtain ⟨r', rest, called⟩ := (Option.any_eq_true _ _).mp goesOn
  obtain ⟨r₁, polled, rest⟩ := Machine.exec_step rest
  have whole := Machine.exec_append (M := machine fun _ => World.bare) run
    [.poll 1 [(5, ⟨true, false, false, false⟩)] false]
  obtain ⟨bounded, goes⟩ := turn_ends (Machine.reachable_exec (.init rfl) allowed run) polled rest
    (by simp [joinedTurn])
  rw [nodes, pending] at bounded
  refine ⟨r₁, r', whole.trans (Machine.exec_cons polled []), rest, bounded, goes.imp_right ?_⟩
  -- The loop has handled all that was handed out.
  intro goes a
  refine goes a fun c next => ?_
  rw [of_decide_eq_true called] at next
  cases next

end Reactor

end LightAgent

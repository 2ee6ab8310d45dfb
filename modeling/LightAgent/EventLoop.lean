import LightAgent.Library.Runs
import Mathlib.Algebra.Group.Nat.Defs
import Mathlib.Data.List.Infix
import Mathlib.Logic.Function.Basic

/-!
# EventLoop: functors queued from any thread

One `EventLoop::loop` and the threads that call `queueInLoop` of it. A step is what a
thread does between two points where another one can see its work: a block under
`mutex_`, a system call, a functor. Between the push and the call of `wakeup` a thread
may stand as long as it likes.
-/
namespace LightAgent

open Library Function

/-- An eventfd watched with `EPOLLET`: each write is an edge, and is reported once. -/
structure Eventfd where
  counter : Nat
  edge : Bool
  deriving DecidableEq, Repr

/-- The largest value of the counter, from which a nonblocking write fails. -/
def Eventfd.limit : Nat := 2 ^ 64 - 2

/-- `write` of 1 -/
def Eventfd.write (efd : Eventfd) : Eventfd :=
  if efd.counter < Eventfd.limit then ⟨efd.counter + 1, true⟩ else efd

/-- `read`, which fails where the counter is 0 -/
def Eventfd.read (efd : Eventfd) : Eventfd := { efd with counter := 0 }

/-- `epoll_wait` reports it, and does not block. -/
def Eventfd.Pending (efd : Eventfd) : Prop := efd.edge = true ∧ 0 < efd.counter

instance (efd : Eventfd) : Decidable efd.Pending := inferInstanceAs (Decidable (_ ∧ _))

/-- A write leaves an edge, or the counter was as large as it can be. -/
theorem Eventfd.write_edge (efd : Eventfd) : 0 < efd.write.counter ∧
    (efd.write.edge = true ∨ (efd.write = efd ∧ 0 < efd.counter)) := by
  unfold Eventfd.write
  split
  next => exact ⟨Nat.succ_pos _, .inl rfl⟩
  next full =>
    have large : 0 < efd.counter := Nat.lt_of_lt_of_le (by decide) (Nat.not_lt.mp full)
    exact ⟨large, .inr ⟨rfl, large⟩⟩

/-- A write is pending unless an earlier one has been reported and not yet been read. -/
theorem Eventfd.write_pending {efd : Eventfd} (unread : 0 < efd.counter → efd.edge = true) :
    efd.write.Pending := by
  obtain ⟨counter, edge | ⟨same, large⟩⟩ := efd.write_edge
  · exact ⟨edge, counter⟩
  · rw [same] at counter ⊢
    exact ⟨unread large, counter⟩

namespace EventLoop

/-- A channel that `poll` returns. -/
inductive Active where
  | wakeup | client
  deriving DecidableEq, Repr

/-- Where the loop thread stands in `loop`. -/
inductive Point (F : Type*) where
  /-- at `while (!quit_)` -/
  | deciding
  /-- in `Epoll::poll` -/
  | polling
  /-- `for (auto& it : ret) it->handleEvents();`, with what is left of `ret` -/
  | handling (ret : List Active)
  /-- in `doPendingFunctors`, before the swap -/
  | calling
  /-- before the next functor, with those still to be run -/
  | running (functors : List F)
  /-- in a functor, with those still to be run -/
  | inFunctor (functors : List F)
  | expiring
  | exited
  deriving DecidableEq, Repr

/-- Where a thread stands in a call. -/
inductive CallPoint where
  | idle
  /-- in `queueInLoop`, with the functor pushed -/
  | pushed
  /-- in `quit`, with `quit_` set -/
  | quitting
  deriving DecidableEq, Repr

end EventLoop

open EventLoop

/-- The loop, with the threads `some t` that call it; the loop thread itself is `none`.
What has been pushed and executed is recorded in order. -/
structure EventLoop (T F : Type*) where
  pendingFunctors_ : List F
  callingPendingFunctors_ : Bool
  quit_ : Bool
  wakeupFd_ : Eventfd
  point : Point F
  call : Option T → CallPoint
  pushed : List F
  executed : List F

namespace EventLoop

variable {T F : Type*}

/-- The channels still to be handled. -/
def Point.ret : Point F → List Active
  | .handling ret => ret
  | _ => []

/-- The functors taken over and not yet run. -/
def Point.functors : Point F → List F
  | .running functors | .inFunctor functors => functors
  | _ => []

/-- `callingPendingFunctors_` is set. -/
def Point.calls : Point F → Bool
  | .calling | .running _ | .inFunctor _ => true
  | _ => false

/-- A handler of a client or a functor runs, from which the loop thread may call `queueInLoop`. -/
def Point.callsOut : Point F → Bool
  | .handling (.client :: _) | .inFunctor _ => true
  | _ => false

/-- The next thing the loop does with its queue is to wait for events first. -/
def Point.drained : Point F → Bool
  | .handling _ | .calling => false
  | _ => true

def new : EventLoop T F where
  pendingFunctors_ := []
  callingPendingFunctors_ := false
  quit_ := false
  wakeupFd_ := ⟨0, false⟩
  point := .deciding
  call := fun _ => .idle
  pushed := []
  executed := []

inductive Label (T F : Type*) where
  /-- `queueInLoop`, up to the end of its block -/
  | queueInLoop (t : Option T) (cb : F)
  /-- `quit`, up to `quit_ = true` -/
  | quit (t : T)
  /-- the rest of `queueInLoop` or `quit` -/
  | wakeup (t : Option T)
  | check
  | poll (active : List Active)
  /-- the next channel of `ret` has been handled -/
  | handled
  | startFunctors
  | swap
  /-- the next functor is called -/
  | run
  /-- it returns -/
  | returned
  | endFunctors
  | handleExpired
  deriving DecidableEq, Repr

section Steps

variable [DecidableEq T]

/-- The rest of a call: `if (!isInLoopThread() || callingPendingFunctors_) wakeup();` in
`queueInLoop`, and `if (!isInLoopThread()) wakeup();` in `quit`. -/
def wakeup (s : EventLoop T F) (t : Option T) : EventLoop T F :=
  let wakes := t ≠ none ∨ (s.call t = .pushed ∧ s.callingPendingFunctors_ = true)
  { s with
    call := update s.call t .idle
    wakeupFd_ := if wakes then s.wakeupFd_.write else s.wakeupFd_ }

def step (s : EventLoop T F) : Label T F → Option (EventLoop T F)
  | .queueInLoop t cb =>
    if s.call t = .idle ∧ (t = none → s.point.callsOut = true) then
      some { s with
        pendingFunctors_ := s.pendingFunctors_ ++ [cb]
        pushed := s.pushed ++ [cb]
        call := update s.call t .pushed }
    else none
  | .quit t =>
    if s.call (some t) = .idle then
      some { s with quit_ := true, call := update s.call (some t) .quitting }
    else none
  | .wakeup t => if s.call t ≠ .idle then some (s.wakeup t) else none
  | .check =>
    match s.point with
    | .deciding => some { s with point := if s.quit_ then .exited else .polling }
    | _ => none
  | .poll active =>
    match s.point with
    | .polling =>
      if active.count .wakeup ≤ 1 ∧ (Active.wakeup ∈ active → s.wakeupFd_.Pending) then
        -- `Epoll::poll` goes on while there is no active channel.
        if active = [] then some s
        else some { s with
          point := .handling active
          wakeupFd_ := { s.wakeupFd_ with edge := s.wakeupFd_.edge && !active.contains .wakeup } }
      else none
    | _ => none
  | .handled =>
    match s.point with
    | .handling (.wakeup :: ret) =>
      some { s with point := .handling ret, wakeupFd_ := s.wakeupFd_.read }
    | .handling (.client :: ret) =>
      if s.call none = .idle then some { s with point := .handling ret } else none
    | _ => none
  | .startFunctors =>
    match s.point with
    | .handling [] => some { s with point := .calling, callingPendingFunctors_ := true }
    | _ => none
  | .swap =>
    match s.point with
    | .calling => some { s with point := .running s.pendingFunctors_, pendingFunctors_ := [] }
    | _ => none
  | .run =>
    match s.point with
    | .running (cb :: functors) =>
      some { s with point := .inFunctor functors, executed := s.executed ++ [cb] }
    | _ => none
  | .returned =>
    match s.point with
    | .inFunctor functors =>
      if s.call none = .idle then some { s with point := .running functors } else none
    | _ => none
  | .endFunctors =>
    match s.point with
    | .running [] => some { s with point := .expiring, callingPendingFunctors_ := false }
    | _ => none
  | .handleExpired =>
    match s.point with
    | .expiring => some { s with point := .deciding }
    | _ => none

def machine (T F : Type*) [DecidableEq T] : Machine (EventLoop T F) (Label T F) :=
  ⟨(· = new), step⟩

/-- What a step does, with what it finds. -/
inductive Steps (s : EventLoop T F) : Label T F → EventLoop T F → Prop
  | queueInLoop {t : Option T} (cb : F) : s.call t = .idle → (t = none → s.point.callsOut = true) →
      Steps s (.queueInLoop t cb) { s with
        pendingFunctors_ := s.pendingFunctors_ ++ [cb]
        pushed := s.pushed ++ [cb]
        call := update s.call t .pushed }
  | quit {t : T} : s.call (some t) = .idle →
      Steps s (.quit t) { s with quit_ := true, call := update s.call (some t) .quitting }
  | wakeup {t : Option T} : s.call t ≠ .idle → Steps s (.wakeup t) (s.wakeup t)
  | check : s.point = .deciding →
      Steps s .check { s with point := if s.quit_ then .exited else .polling }
  | idle : s.point = .polling → Steps s (.poll []) s
  | poll {active : List Active} : s.point = .polling → active ≠ [] → Steps s (.poll active) { s with
      point := .handling active
      wakeupFd_ := { s.wakeupFd_ with edge := s.wakeupFd_.edge && !active.contains .wakeup } }
  | handleRead {ret : List Active} : s.point = .handling (.wakeup :: ret) →
      Steps s .handled { s with point := .handling ret, wakeupFd_ := s.wakeupFd_.read }
  | handled {ret : List Active} : s.point = .handling (.client :: ret) → s.call none = .idle →
      Steps s .handled { s with point := .handling ret }
  | startFunctors : s.point = .handling [] →
      Steps s .startFunctors { s with point := .calling, callingPendingFunctors_ := true }
  | swap : s.point = .calling →
      Steps s .swap { s with point := .running s.pendingFunctors_, pendingFunctors_ := [] }
  | run {cb : F} {functors : List F} : s.point = .running (cb :: functors) →
      Steps s .run { s with point := .inFunctor functors, executed := s.executed ++ [cb] }
  | returned {functors : List F} : s.point = .inFunctor functors → s.call none = .idle →
      Steps s .returned { s with point := .running functors }
  | endFunctors : s.point = .running [] →
      Steps s .endFunctors { s with point := .expiring, callingPendingFunctors_ := false }
  | handleExpired : s.point = .expiring → Steps s .handleExpired { s with point := .deciding }

theorem step_steps {s s' : EventLoop T F} {l : Label T F} (taken : s.step l = some s') :
    s.Steps l s' := by
  cases l with
  | queueInLoop t cb =>
    simp only [step] at taken
    split at taken
    next allowed => cases taken; exact .queueInLoop cb allowed.1 allowed.2
    next => cases taken
  | quit t =>
    simp only [step] at taken
    split at taken
    next free => cases taken; exact .quit free
    next => cases taken
  | wakeup t =>
    simp only [step] at taken
    split at taken
    next busy => cases taken; exact .wakeup busy
    next => cases taken
  | check =>
    simp only [step] at taken
    split at taken
    next point => cases taken; exact .check point
    next => cases taken
  | poll active =>
    simp only [step] at taken
    split at taken
    next point =>
      split at taken
      next =>
        split at taken
        next nothing => cases taken; subst nothing; exact .idle point
        next some_ => cases taken; exact .poll point some_
      next => cases taken
    next => cases taken
  | handled =>
    simp only [step] at taken
    split at taken
    next ret point => cases taken; exact .handleRead point
    next ret point =>
      split at taken
      next idle => cases taken; exact .handled point idle
      next => cases taken
    next => cases taken
  | startFunctors =>
    simp only [step] at taken
    split at taken
    next point => cases taken; exact .startFunctors point
    next => cases taken
  | swap =>
    simp only [step] at taken
    split at taken
    next point => cases taken; exact .swap point
    next => cases taken
  | run =>
    simp only [step] at taken
    split at taken
    next cb functors point => cases taken; exact .run point
    next => cases taken
  | returned =>
    simp only [step] at taken
    split at taken
    next functors point =>
      split at taken
      next idle => cases taken; exact .returned point idle
      next => cases taken
    next => cases taken
  | endFunctors =>
    simp only [step] at taken
    split at taken
    next point => cases taken; exact .endFunctors point
    next => cases taken
  | handleExpired =>
    simp only [step] at taken
    split at taken
    next point => cases taken; exact .handleExpired point
    next => cases taken

end Steps

/-! ### The invariant -/

/-- What keeps a functor from being forgotten. -/
structure Sound (s : EventLoop T F) : Prop where
  order : s.pushed = s.executed ++ s.point.functors ++ s.pendingFunctors_
  calling : s.callingPendingFunctors_ = s.point.calls
  /-- the loop thread is in a call only where its handlers or functors run -/
  caller : s.call none ≠ .idle → s.call none = .pushed ∧ s.point.callsOut = true
  /-- what has been written and not read is about to be reported or to be read -/
  unread : 0 < s.wakeupFd_.counter → s.wakeupFd_.edge = true ∨ .wakeup ∈ s.point.ret
  /-- what is pushed where the loop waits first will wake it -/
  heard : s.point.drained = true →
    s.pendingFunctors_ = [] ∨ s.wakeupFd_.Pending ∨ ∃ t, s.call t = .pushed

theorem sound_new : (new : EventLoop T F).Sound where
  order := rfl
  calling := rfl
  caller busy := absurd rfl busy
  unread some_ := absurd some_ (Nat.lt_irrefl 0)
  heard _ := .inl rfl

namespace Sound

variable {s : EventLoop T F}

/-- Where no channel is to be handled, what has been written is still to be reported. -/
theorem reports (sound : s.Sound) {here : Point F} (at_ : s.point = here) (ret : here.ret = [])
    (some_ : 0 < s.wakeupFd_.counter) : s.wakeupFd_.edge = true := by
  rcases sound.unread some_ with edge | listed
  · exact edge
  · rw [at_, ret] at listed
    cases listed

theorem ret_drained {point : Point F} (drained : point.drained = true) : point.ret = [] := by
  cases point with
  | handling ret => cases drained
  | _ => rfl

theorem calls_drained {point : Point F} (drained : point.drained = true)
    (callsOut : point.callsOut = true) : point.calls = true := by
  cases point with
  | inFunctor functors => rfl
  | handling ret => cases drained
  | _ => cases callsOut

/-- The loop thread is in no call where nothing it could call from runs. -/
theorem idle (sound : s.Sound) {here : Point F} (at_ : s.point = here)
    (quiet : here.callsOut = false) : s.call none = .idle := by
  by_contra busy
  cases quiet.symm.trans (at_ ▸ (sound.caller busy).2)

theorem calling_at (sound : s.Sound) {here there : Point F} (at_ : s.point = here)
    (same : here.calls = there.calls) : s.callingPendingFunctors_ = there.calls :=
  sound.calling.trans ((congrArg Point.calls at_).trans same)

/-- The loop goes on to a point with the same functors. -/
theorem goOn (sound : s.Sound) {here point : Point F} {calling : Bool} (at_ : s.point = here)
    (functors : point.functors = here.functors) (calls : calling = point.calls)
    (idle : s.call none = .idle) (ret : .wakeup ∈ here.ret → .wakeup ∈ point.ret)
    (drained : point.drained = true → here.drained = true) :
    Sound { s with point := point, callingPendingFunctors_ := calling } := by
  subst at_
  refine ⟨?_, calls, fun busy => absurd idle busy, fun some_ => (sound.unread some_).imp_right ret,
    fun waits => sound.heard (drained waits)⟩
  dsimp only
  rw [functors]
  exact sound.order

variable [DecidableEq T]

/-- The push of `queueInLoop`. -/
theorem push (sound : s.Sound) {t : Option T} (cb : F)
    (caller : t = none → s.point.callsOut = true) : Sound { s with
      pendingFunctors_ := s.pendingFunctors_ ++ [cb]
      pushed := s.pushed ++ [cb]
      call := update s.call t .pushed } where
  order := by
    change s.pushed ++ [cb] = _
    rw [sound.order, List.append_assoc]
  calling := sound.calling
  caller busy := by
    dsimp only at busy ⊢
    -- The loop thread itself calls only from a handler or a functor.
    by_cases own : t = none
    · subst own
      exact ⟨update_self _ _ _, caller rfl⟩
    · rw [update_of_ne (Ne.symm own)] at busy ⊢
      exact sound.caller busy
  unread := sound.unread
  -- The thread that has pushed has still to decide whether to wake the loop.
  heard _ := .inr (.inr ⟨t, update_self _ _ _⟩)

/-- The rest of a call. -/
theorem wakeup (sound : s.Sound) {t : Option T} (busy : s.call t ≠ .idle) : (s.wakeup t).Sound := by
  unfold EventLoop.wakeup
  dsimp only
  constructor
  case order => exact sound.order
  case calling => exact sound.calling
  case caller =>
    dsimp only
    intro still
    by_cases own : t = none
    · subst own
      exact absurd (update_self _ _ _) still
    · rw [update_of_ne (Ne.symm own)] at still ⊢
      exact sound.caller still
  case unread =>
    dsimp only
    split
    · intro _
      rcases s.wakeupFd_.write_edge.2 with edge | ⟨same, large⟩
      · exact .inl edge
      · rw [same]
        exact sound.unread large
    · exact sound.unread
  case heard =>
    dsimp only
    intro drained
    split
    next => exact .inr (.inl (Eventfd.write_pending (sound.reports rfl (ret_drained drained))))
    next silent =>
      -- Only the loop thread is silent, and only in a call from a handler.
      have own : t = none := by
        by_contra other
        exact silent (.inl other)
      subst own
      obtain ⟨pushed, callsOut⟩ := sound.caller busy
      refine absurd (.inr ⟨pushed, ?_⟩) silent
      rw [sound.calling]
      exact calls_drained drained callsOut

theorem step {s' : EventLoop T F} {l : Label T F} (sound : s.Sound)
    (taken : EventLoop.step s l = some s') : s'.Sound := by
  have order := sound.order
  cases step_steps taken with
  | queueInLoop cb idle caller => exact sound.push cb caller
  | quit free =>
    rename_i t
    refine ⟨order, sound.calling, fun busy => sound.caller busy, sound.unread, fun drained => ?_⟩
    rcases sound.heard drained with empty | pending | ⟨u, pushed⟩
    · exact .inl empty
    · exact .inr (.inl pending)
    · -- The thread that has pushed is in another call than this one.
      have other : u ≠ some t := by
        rintro rfl
        cases free.symm.trans pushed
      exact .inr (.inr ⟨u, (update_of_ne other _ _).trans pushed⟩)
  | wakeup busy => exact sound.wakeup busy
  | check point =>
    have idle := sound.idle point rfl
    -- In both cases nothing of the queue changes.
    by_cases quit : s.quit_ = true
    · rw [if_pos quit]
      exact sound.goOn point rfl (sound.calling_at point rfl) idle nofun fun _ => rfl
    · rw [if_neg quit]
      exact sound.goOn point rfl (sound.calling_at point rfl) idle nofun fun _ => rfl
  | idle point => exact sound
  | poll point some_ =>
    rename_i active
    rw [point] at order
    refine ⟨order, sound.calling_at point rfl, fun busy => absurd (sound.idle point rfl) busy,
      fun some_ => ?_, nofun⟩
    -- The edge is used up only where the wakeup is among the active channels.
    by_cases listed : Active.wakeup ∈ active
    · exact .inr listed
    · refine .inl ?_
      simp [listed, sound.reports point rfl some_]
  | handleRead point =>
    rw [point] at order
    exact ⟨order, sound.calling_at point rfl, fun busy => absurd (sound.idle point rfl) busy,
      fun some_ => absurd some_ (Nat.lt_irrefl 0), nofun⟩
  | handled point idle =>
    exact sound.goOn point rfl (sound.calling_at point rfl) idle
      (fun listed => (List.mem_cons.mp listed).resolve_left nofun) nofun
  | startFunctors point => exact sound.goOn point rfl rfl (sound.idle point rfl) nofun nofun
  | swap point =>
    -- The swap moves the queue to the functors of this turn, in its order.
    rw [point] at order
    refine ⟨?_, sound.calling_at point rfl, fun busy => absurd (sound.idle point rfl) busy,
      fun some_ => .inl (sound.reports point rfl some_), fun _ => .inl rfl⟩
    dsimp only [Point.functors] at order ⊢
    rw [order, List.append_nil, List.append_nil]
  | run point =>
    rename_i cb functors
    rw [point] at order
    refine ⟨?_, sound.calling_at point rfl, fun busy => absurd (sound.idle point rfl) busy,
      fun some_ => .inl (sound.reports point rfl some_), fun _ => sound.heard ?_⟩
    · dsimp only [Point.functors] at order ⊢
      rw [order, List.append_assoc s.executed [cb], List.singleton_append]
    · rw [point]
      rfl
  | returned point idle =>
    exact sound.goOn point rfl (sound.calling_at point rfl) idle nofun fun _ => rfl
  | endFunctors point => exact sound.goOn point rfl rfl (sound.idle point rfl) nofun fun _ => rfl
  | handleExpired point =>
    have idle := sound.idle point rfl
    exact sound.goOn point rfl (sound.calling_at point rfl) idle nofun fun _ => rfl

end Sound

/-! ### The queue -/

/-- In every interleaving the functors run in the order they were pushed in, each once, and
where the loop is about to block some other thread is about to wake it if a functor waits. -/
theorem functor_queue_safety [DecidableEq T] {s : EventLoop T F}
    (reached : (machine T F).Reachable s) :
    s.executed <+: s.pushed ∧
      s.pushed = s.executed ++ s.point.functors ++ s.pendingFunctors_ ∧
      (s.point = .polling → ¬s.wakeupFd_.Pending →
        s.pendingFunctors_ = [] ∨ ∃ t, s.call (some t) = .pushed) := by
  have sound : s.Sound :=
    Machine.invariant (fun _ start => start ▸ sound_new) (fun _ _ _ => Sound.step) reached
  refine ⟨⟨s.point.functors ++ s.pendingFunctors_, ?_⟩, sound.order, fun point silent => ?_⟩
  · rw [← List.append_assoc]
    exact sound.order.symm
  · rcases sound.heard (by rw [point]; rfl) with empty | pending | ⟨t, pushed⟩
    · exact .inl empty
    · exact absurd pending silent
    -- In its poll the loop thread is in no call itself.
    · cases t with
      | none => cases (sound.idle point rfl).symm.trans pushed
      | some t => exact .inr ⟨t, pushed⟩

/-- One turn of the loop that is woken and runs so many functors. -/
def turn (functors : Nat) : List (Label Nat Nat) :=
  [.poll [.wakeup], .handled, .startFunctors, .swap] ++
    (List.replicate functors [.run, .returned]).flatten ++ [.endFunctors, .handleExpired, .check]

/-- Three threads push; the last one has not come to its `wakeup` when the loop is through. -/
def threePushes : List (Label Nat Nat) :=
  [.check, .queueInLoop (some 0) 70, .wakeup (some 0), .queueInLoop (some 1) 71] ++ turn 2 ++
    [.wakeup (some 1)] ++ turn 0 ++ [.queueInLoop (some 2) 72]

theorem functor_queue_safety_threePushes : ∃ s, (machine Nat Nat).exec new threePushes = some s ∧
    (s.point = .polling ∧ ¬s.wakeupFd_.Pending ∧ s.executed = [70, 71] ∧
      s.pendingFunctors_ = [72]) ∧
    s.executed <+: s.pushed ∧
      s.pushed = s.executed ++ s.point.functors ++ s.pendingFunctors_ ∧
      (s.point = .polling → ¬s.wakeupFd_.Pending →
        s.pendingFunctors_ = [] ∨ ∃ t, s.call (some t) = .pushed) := by
  obtain ⟨s, run, stands⟩ := Machine.exec_any (M := machine Nat Nat)
    (fun s => s.point = .polling ∧ ¬s.wakeupFd_.Pending ∧ s.executed = [70, 71] ∧
      s.pendingFunctors_ = [72]) new threePushes (by decide)
  have allowed : (machine Nat Nat).Along (fun _ _ _ => True) new threePushes := by decide
  exact ⟨s, run, stands, functor_queue_safety (Machine.reachable_exec (.init rfl) allowed run)⟩

end EventLoop

end LightAgent

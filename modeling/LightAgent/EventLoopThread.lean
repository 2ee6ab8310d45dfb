import LightAgent.EventLoop

/-!
# EventLoopThread: a loop in a thread of its own

`startLoop` returns when `threadFunc` has published its loop, and from then on other threads may
call the loop, whether or not `loop` has begun. `~EventLoopThread` calls `quit` and joins.
-/
namespace LightAgent

open Library Function

namespace EventLoopThread

/-- Where `threadFunc` stands. -/
inductive Stage where
  /-- before it has set `loop_` -/
  | constructing
  /-- before `loop` has set `quit_` to false -/
  | published
  | looping
  /-- `loop` has returned, and `loop_` is NULL -/
  | finished
  deriving DecidableEq, Repr

end EventLoopThread

open EventLoopThread

structure EventLoopThread (T F : Type*) where
  loop : EventLoop T F
  stage : Stage
  /-- `startLoop` has returned -/
  started : Bool
  exiting_ : Bool

/-- A step of the loop thread itself. -/
def EventLoop.Label.ofLoop {T F : Type*} : EventLoop.Label T F → Bool
  | .queueInLoop t _ | .wakeup t => t.isNone
  | .quit _ => false
  | _ => true

def EventLoop.Label.quits {T F : Type*} : EventLoop.Label T F → Bool
  | .quit _ => true
  | _ => false

def EventLoop.Point.ended {F : Type*} : EventLoop.Point F → Bool
  | .exited => true
  | _ => false

namespace EventLoopThread

variable {T F : Type*}

def new : EventLoopThread T F := ⟨.new, .constructing, false, false⟩

inductive Label (T F : Type*) where
  /-- the block of `threadFunc` under `mutex_` -/
  | publish
  /-- `startLoop` returns -/
  | startLoop
  /-- `looping_ = true; quit_ = false;` -/
  | begin
  /-- a step in the rest of `loop`, or of a thread that calls the loop -/
  | run (l : EventLoop.Label T F)
  /-- `loop_ = NULL` -/
  | finish
  deriving DecidableEq, Repr

section Steps

variable [DecidableEq T]

/-- `quit` is called once, by `~EventLoopThread`. -/
def step (s : EventLoopThread T F) : Label T F → Option (EventLoopThread T F)
  | .publish => if s.stage = .constructing then some { s with stage := .published } else none
  | .startLoop =>
    if s.stage = .published ∨ s.stage = .looping then some { s with started := true } else none
  | .begin =>
    if s.stage = .published then
      -- A request that came before is overwritten.
      some { s with stage := .looping, loop := { s.loop with quit_ := false } }
    else none
  | .run l =>
    if (l.ofLoop = true → s.stage = .looping) ∧ (l.ofLoop = false → s.started = true) ∧
        (l.quits = true → s.exiting_ = false) then
      (s.loop.step l).map fun loop => { s with loop := loop, exiting_ := s.exiting_ || l.quits }
    else none
  | .finish =>
    if s.stage = .looping ∧ s.loop.point.ended = true then some { s with stage := .finished }
    else none

def machine (T F : Type*) [DecidableEq T] : Machine (EventLoopThread T F) (Label T F) :=
  ⟨(· = new), step⟩

end Steps

/-- What a step does, with the stage it starts from. -/
inductive Steps [DecidableEq T] (s : EventLoopThread T F) :
    Label T F → EventLoopThread T F → Prop
  | publish : s.stage = .constructing → Steps s .publish { s with stage := .published }
  | startLoop : s.stage = .published ∨ s.stage = .looping →
      Steps s .startLoop { s with started := true }
  | begin : s.stage = .published →
      Steps s .begin { s with stage := .looping, loop := { s.loop with quit_ := false } }
  | run {l : EventLoop.Label T F} {loop : EventLoop T F} :
      (l.ofLoop = true → s.stage = .looping) → (l.ofLoop = false → s.started = true) →
      (l.quits = true → s.exiting_ = false) → s.loop.step l = some loop →
      Steps s (.run l) { s with loop := loop, exiting_ := s.exiting_ || l.quits }
  | finish : s.stage = .looping → s.loop.point.ended = true →
      Steps s .finish { s with stage := .finished }

theorem step_steps [DecidableEq T] {s s' : EventLoopThread T F} {l : Label T F}
    (taken : s.step l = some s') : s.Steps l s' := by
  cases l with
  | publish =>
    simp only [step] at taken
    split at taken
    next stage => cases taken; exact .publish stage
    next => cases taken
  | startLoop =>
    simp only [step] at taken
    split at taken
    next stage => cases taken; exact .startLoop stage
    next => cases taken
  | begin =>
    simp only [step] at taken
    split at taken
    next stage => cases taken; exact .begin stage
    next => cases taken
  | run l =>
    simp only [step] at taken
    split at taken
    next allowed =>
      obtain ⟨loop, advanced, rfl⟩ := Option.map_eq_some_iff.mp taken
      obtain ⟨own, caller, once⟩ := allowed
      exact .run own caller once advanced
    next => cases taken
  | finish =>
    simp only [step] at taken
    split at taken
    next ended => cases taken; exact .finish ended.1 ended.2
    next => cases taken

/-- A mark where the step starts a poll. -/
def starts (s : EventLoopThread T F) : Label T F → List Unit
  | .run .check => if s.loop.quit_ then [] else [()]
  | _ => []

variable [DecidableEq T]

/-- How many polls the loop thread starts in a run. -/
def polls (s : EventLoopThread T F) (ls : List (Label T F)) : Nat :=
  ((machine T F).output starts s ls).length

/-- From here on the loop thread starts at most one poll, and does not block in one once
`quit` has returned. -/
def Heeded (s : EventLoopThread T F) (t : T) : Prop :=
  ∀ ls s', (machine T F).exec s ls = some s' → s.polls ls ≤ 1 ∧
    (s'.loop.point = .polling → s'.loop.call (some t) ≠ .quitting → s'.loop.wakeupFd_.Pending)

/-! ### Before quit -/

/-- The loop does nothing before `loop` has begun, and does not end before `quit`. -/
structure Sound (s : EventLoopThread T F) : Prop where
  loop : s.loop.Sound
  early : s.stage = .constructing ∨ s.stage = .published → s.loop.point = .deciding
  started : s.started = true → s.stage ≠ .constructing
  running : s.exiting_ = false →
    s.loop.quit_ = false ∧ s.loop.point.ended = false ∧ s.stage ≠ .finished

omit [DecidableEq T] in
theorem sound_new : (new : EventLoopThread T F).Sound where
  loop := EventLoop.sound_new
  early _ := rfl
  started started := by cases started
  running _ := ⟨rfl, rfl, by simp [new]⟩

variable {s s' : EventLoopThread T F}

end EventLoopThread

namespace EventLoop

variable {T F : Type*} [DecidableEq T] {s s' : EventLoop T F}

/-- Only `quit` sets `quit_`, and the loop ends only where it is set. -/
theorem step_quit_ {l : Label T F} (other : l.quits = false) (taken : s.step l = some s') :
    s'.quit_ = s.quit_ ∧ (s.quit_ = false → s.point.ended = false → s'.point.ended = false) := by
  cases step_steps taken with
  | queueInLoop cb | wakeup busy | idle point => exact ⟨rfl, fun _ => id⟩
  | quit free => cases other
  | check point =>
    refine ⟨rfl, fun going _ => ?_⟩
    simp only [going]
    rfl
  | _ => exact ⟨rfl, fun _ _ => rfl⟩

/-- A caller does not move the loop. -/
theorem step_point {l : Label T F} (caller : l.ofLoop = false) (taken : s.step l = some s') :
    s'.point = s.point := by
  cases step_steps taken with
  | queueInLoop cb | quit free | wakeup busy => rfl
  | _ => cases caller

/-- With `quit_` set no poll is started, and one that goes on stays woken. -/
theorem step_woken {l : Label T F} {t : T} (sound : s.Sound) (other : l.quits = false)
    (quit_ : s.quit_ = true)
    (woken : s.point = .polling → s.call (some t) ≠ .quitting → s.wakeupFd_.Pending)
    (taken : s.step l = some s') (point : s'.point = .polling)
    (returned : s'.call (some t) ≠ .quitting) : s'.wakeupFd_.Pending := by
  cases step_steps taken with
  | queueInLoop cb idle caller =>
    rename_i u
    refine woken point fun quitting => ?_
    by_cases own : u = some t
    · subst own
      cases idle.symm.trans quitting
    · exact returned ((update_of_ne (Ne.symm own) _ _).trans quitting)
  | quit free => cases other
  | wakeup busy =>
    rename_i u
    have pending : s.wakeupFd_.write.Pending := Eventfd.write_pending (sound.reports point rfl)
    unfold EventLoop.wakeup
    dsimp only
    split
    next => exact pending
    next silent =>
      -- Only the loop thread does not write, and its call is not the one of `quit`.
      refine woken point fun quitting => returned ?_
      have differs : some t ≠ u := by
        rintro rfl
        exact silent (.inl (by simp))
      exact (update_of_ne differs _ _).trans quitting
  | check => simp [quit_] at point
  | idle => exact woken point returned
  | _ => cases point

end EventLoop

namespace EventLoopThread

variable {T F : Type*} [DecidableEq T] {s s' : EventLoopThread T F}

theorem Sound.step (sound : s.Sound) {l : Label T F} (taken : s.step l = some s') : s'.Sound := by
  cases step_steps taken with
  | publish stage =>
    refine ⟨sound.loop, fun _ => sound.early (.inl stage), by simp, fun running => ?_⟩
    obtain ⟨quit_, point, _⟩ := sound.running running
    exact ⟨quit_, point, by simp⟩
  | startLoop stage =>
    refine ⟨sound.loop, sound.early, fun _ => ?_, sound.running⟩
    rcases stage with stage | stage
    · simp [stage]
    · simp [stage]
  | begin stage =>
    obtain ⟨order, calling, caller, unread, heard⟩ := sound.loop
    refine ⟨⟨order, calling, caller, unread, heard⟩, by simp, by simp, fun running => ?_⟩
    obtain ⟨_, point, _⟩ := sound.running running
    exact ⟨rfl, point, by simp⟩
  | run own _ once advanced =>
    refine ⟨sound.loop.step advanced, fun stage => ?_, sound.started, fun running => ?_⟩
    · -- Before `loop` has begun only callers take steps.
      refine (EventLoop.step_point ?_ advanced).trans (sound.early stage)
      by_contra same
      have looping := own (by simpa using same)
      rcases stage with stage | stage
      · cases looping.symm.trans stage
      · cases looping.symm.trans stage
    · obtain ⟨before, other⟩ := Bool.or_eq_false_iff.mp running
      obtain ⟨quit_, point, stage⟩ := sound.running before
      obtain ⟨same, goesOn⟩ := EventLoop.step_quit_ other advanced
      exact ⟨same.trans quit_, goesOn quit_ point, stage⟩
  | finish _ ended =>
    refine ⟨sound.loop, by simp, by simp, fun running => ?_⟩
    cases ended.symm.trans (sound.running running).2.1

theorem sound (reached : (machine T F).Reachable s) : s.Sound :=
  Machine.invariant (fun _ start => start ▸ sound_new) (fun _ _ _ sound => sound.step) reached

/-! ### After quit -/

/-- `quit_` stays set, and a poll that goes on will return. -/
structure Quitting (t : T) (s : EventLoopThread T F) : Prop where
  loop : s.loop.Sound
  begun : s.stage = .looping ∨ s.stage = .finished
  quit_ : s.loop.quit_ = true
  exiting_ : s.exiting_ = true
  woken : s.loop.point = .polling → s.loop.call (some t) ≠ .quitting → s.loop.wakeupFd_.Pending

namespace Quitting

variable {t : T}

theorem step (quitting : s.Quitting t) {l : Label T F} (taken : s.step l = some s') :
    s'.Quitting t := by
  obtain ⟨loop, begun, quit_, exiting_, woken⟩ := quitting
  cases step_steps taken with
  | publish stage => simp [stage] at begun
  | begin stage => simp [stage] at begun
  | startLoop => exact ⟨loop, begun, quit_, exiting_, woken⟩
  | finish => exact ⟨loop, .inr rfl, quit_, exiting_, woken⟩
  | run _ _ once moves =>
    -- `quit` has been called and is not called again, so `quit_` is not touched any more.
    have other : _ = false := Bool.eq_false_iff.mpr fun quits =>
      absurd (exiting_.symm.trans (once quits)) (by simp)
    refine ⟨loop.step moves, begun, ?_, by simp [exiting_], ?_⟩
    · exact (EventLoop.step_quit_ other moves).1.trans quit_
    · exact EventLoop.step_woken loop other quit_ woken moves

/-- No step starts a poll. -/
theorem polls (quitting : s.Quitting t) (ls : List (Label T F)) : s.polls ls = 0 := by
  -- Every poll starts with a test of `quit_`.
  refine congrArg List.length (Machine.output_eq_nil ?_ (fun _ _ _ h => h.step) quitting)
  intro s l _ quitting
  have quit_ := quitting.quit_
  unfold starts
  split
  · rw [if_pos quit_]
  · rfl

theorem heeded (quitting : s.Quitting t) : s.Heeded t := by
  intro ls s' run
  have ended : s'.Quitting t := Machine.invariant_exec (fun _ _ _ h => h.step) quitting run
  rw [quitting.polls]
  exact ⟨Nat.zero_le _, ended.woken⟩

end Quitting

end EventLoopThread

/-! ### A turn of the loop -/

namespace EventLoop

variable {T F : Type*} [DecidableEq T] {s : EventLoop T F}

theorem Sound.exec {s' : EventLoop T F} (sound : s.Sound) {ls : List (Label T F)}
    (run : (machine T F).exec s ls = some s') : s'.Sound :=
  Machine.invariant_exec (fun _ _ _ => Sound.step) sound run

/-- The functors that were taken over run one after another. -/
theorem exec_functors {functors : List F} (sound : s.Sound) (point : s.point = .running functors) :
    ∃ s', (machine T F).exec s (List.replicate functors.length [.run, .returned]).flatten = some s' ∧
      s'.point = .running [] ∧ s'.quit_ = s.quit_ := by
  -- On what is still to run; every functor takes two steps.
  induction functors generalizing s with
  | nil => exact ⟨s, rfl, point, rfl⟩
  | cons cb functors ih =>
    have idle : s.call none = .idle := sound.idle point rfl
    let called : EventLoop T F := { s with
      point := .inFunctor functors
      executed := s.executed ++ [cb] }
    have run : s.step .run = some called := by simp only [step, point, called]
    have returned : called.step .returned = some { called with point := .running functors } := by
      simp only [step, called, idle, ite_true]
    obtain ⟨s', rest, ended, quit_⟩ := ih ((sound.step run).step returned) rfl
    refine ⟨s', ?_, ended, quit_⟩
    have first : (machine T F).exec s [.run, .returned] =
        some { called with point := .running functors } := by
      simp [Machine.exec, machine, run, returned]
    rw [List.length_cons, List.replicate_succ, List.flatten_cons, Machine.exec_append first]
    exact rest

/-- The labels of a turn in which an event of a client ends the poll. -/
def clientTurn (functors : Nat) : List (Label T F) :=
  .poll [.client] :: .handled :: .startFunctors :: .swap ::
    ((List.replicate functors [.run, .returned]).flatten ++ [.endFunctors, .handleExpired])

omit [DecidableEq T] in
theorem clientTurn_ofLoop (functors : Nat) :
    ∀ l ∈ (clientTurn functors : List (Label T F)), l.ofLoop = true ∧ l ≠ .check := by
  intro l member
  simp only [clientTurn, List.mem_cons, List.mem_append, List.mem_flatten, List.mem_replicate,
    List.not_mem_nil, or_false] at member
  rcases member with rfl | rfl | rfl | rfl | ⟨_, ⟨_, rfl⟩, inside⟩ | rfl | rfl
  case inr.inr.inr.inr.inl =>
    simp only [List.mem_cons, List.not_mem_nil, or_false] at inside
    rcases inside with rfl | rfl
    · exact ⟨rfl, by simp⟩
    · exact ⟨rfl, by simp⟩
  all_goals exact ⟨rfl, by simp⟩

/-- From its test of `quit_` the loop comes to the next one. -/
theorem exec_turn (sound : s.Sound) (point : s.point = .deciding) (quit_ : s.quit_ = false) :
    ∃ s', (machine T F).exec s (.check :: clientTurn s.pendingFunctors_.length) = some s' ∧
      s'.point = .deciding ∧ s'.quit_ = false := by
  have idle : s.call none = .idle := sound.idle point rfl
  -- Up to the swap, over the functors, and the rest of the turn.
  let swapped : EventLoop T F := { s with
    point := .running s.pendingFunctors_
    pendingFunctors_ := []
    callingPendingFunctors_ := true
    wakeupFd_ := { s.wakeupFd_ with edge := s.wakeupFd_.edge && true } }
  have first : (machine T F).exec s
      [.check, .poll [.client], .handled, .startFunctors, .swap] = some swapped := by
    simp [Machine.exec, machine, step, point, quit_, idle, swapped]
  obtain ⟨s', run, ended, same⟩ := exec_functors (sound.exec first) rfl
  have last : (machine T F).exec s' [.endFunctors, .handleExpired] =
      some { s' with point := .deciding, callingPendingFunctors_ := false } := by
    simp [Machine.exec, machine, step, ended]
  refine ⟨{ s' with point := .deciding, callingPendingFunctors_ := false }, ?_, rfl, same.trans quit_⟩
  have split : (.check :: clientTurn s.pendingFunctors_.length : List (Label T F)) =
      [.check, .poll [.client], .handled, .startFunctors, .swap] ++
        ((List.replicate s.pendingFunctors_.length [.run, .returned]).flatten ++
          [.endFunctors, .handleExpired]) := rfl
  rw [split, Machine.exec_append first]
  exact (Machine.exec_append run _).trans last

end EventLoop

namespace EventLoopThread

variable {T F : Type*} [DecidableEq T] {s s' : EventLoopThread T F}

/-- While `loop` runs, the thread takes the steps of its `EventLoop`. -/
theorem exec_run {ls : List (EventLoop.Label T F)} {loop : EventLoop T F}
    (looping : s.stage = .looping) (own : ∀ l ∈ ls, l.ofLoop = true)
    (run : (EventLoop.machine T F).exec s.loop ls = some loop) :
    (machine T F).exec s (ls.map .run) = some { s with loop := loop } := by
  induction ls generalizing s with
  | nil => cases run; rfl
  | cons l ls ih =>
    obtain ⟨next, taken, rest⟩ := Machine.exec_step run
    obtain ⟨first, others⟩ := List.forall_mem_cons.mp own
    -- No step of the loop thread is a call of `quit`.
    have other : l.quits = false := by
      cases l with
      | quit t => cases first
      | _ => rfl
    have step : (machine T F).step s (.run l) = some { s with loop := next } := by
      have taken : s.loop.step l = some next := taken
      simp [machine, step, first, other, looping, taken]
    rw [List.map_cons, Machine.exec_cons step]
    exact ih looping others rest

/-- A run that starts so many polls leads from one state to the other. -/
def Reaches (s : EventLoopThread T F) (n : Nat) (s' : EventLoopThread T F) : Prop :=
  ∃ ls, (machine T F).exec s ls = some s' ∧ s.polls ls = n

theorem Reaches.trans {m n : Nat} {s'' : EventLoopThread T F} (first : s.Reaches m s')
    (second : s'.Reaches n s'') : s.Reaches (m + n) s'' := by
  obtain ⟨ls, run, rfl⟩ := first
  obtain ⟨more, rest, rfl⟩ := second
  refine ⟨ls ++ more, (Machine.exec_append run more).trans rest, ?_⟩
  unfold polls
  rw [Machine.output_append starts run, List.length_append]

/-- The loop is at `while (!quit_)`, with nothing left of any request. -/
structure Forgotten (s : EventLoopThread T F) : Prop where
  loop : s.loop.Sound
  stage : s.stage = .looping
  point : s.loop.point = .deciding
  quit_ : s.loop.quit_ = false

/-- `loop` sets `quit_` to false when it begins. -/
theorem forgotten_of_begin (sound : s.loop.Sound) (stage : s.stage = .published)
    (point : s.loop.point = .deciding) :
    ∃ s', (machine T F).step s .begin = some s' ∧ s'.Forgotten := by
  obtain ⟨order, calling, caller, unread, heard⟩ := sound
  exact ⟨_, if_pos stage, ⟨order, calling, caller, unread, heard⟩, rfl, point, rfl⟩

/-- It polls, and comes back there. -/
theorem Forgotten.turn (forgotten : s.Forgotten) : ∃ s', s.Reaches 1 s' ∧ s'.Forgotten := by
  obtain ⟨sound, stage, point, quit_⟩ := forgotten
  obtain ⟨loop, run, ended, same⟩ := EventLoop.exec_turn sound point quit_
  have own := EventLoop.clientTurn_ofLoop (T := T) (F := F) s.loop.pendingFunctors_.length
  have all := exec_run stage (fun l member => by
    rcases List.mem_cons.mp member with rfl | later
    · rfl
    · exact (own l later).1) run
  refine ⟨{ s with loop := loop }, ⟨_, all, ?_⟩, ⟨sound.exec run, stage, ended, same⟩⟩
  rw [List.map_cons] at all
  obtain ⟨next, taken, _⟩ := Machine.exec_step all
  -- Only the test of `quit_` starts a poll.
  have first : s.starts (.run .check) = [()] := if_neg (by rw [quit_]; decide)
  have rest : (machine T F).output starts next
      ((EventLoop.clientTurn s.loop.pendingFunctors_.length).map .run) = [] := by
    apply Machine.output_eq_nil (I := fun _ => True) _ (fun _ _ _ _ _ => trivial) trivial
    rintro s l member -
    obtain ⟨l, listed, rfl⟩ := List.mem_map.mp member
    cases l with
    | check => exact absurd rfl (own _ listed).2
    | _ => rfl
  unfold polls
  rw [List.map_cons, Machine.output_cons starts taken, first, rest]
  rfl

/-- It polls as often as events come in. -/
theorem Forgotten.polls (forgotten : s.Forgotten) (n : Nat) : ∃ s', s.Reaches n s' := by
  induction n generalizing s with
  | zero => exact ⟨s, [], rfl, rfl⟩
  | succ n ih =>
    obtain ⟨next, once, still⟩ := forgotten.turn
    obtain ⟨s', more⟩ := ih still
    exact ⟨s', Nat.add_comm 1 n ▸ once.trans more⟩

/-- A request made before `loop` begins is forgotten. -/
theorem not_heeded (sound : s.loop.Sound) (stage : s.stage = .published)
    (point : s.loop.point = .deciding) (t : T) : ¬s.Heeded t := by
  intro heeded
  obtain ⟨next, begun, forgotten⟩ := forgotten_of_begin sound stage point
  -- One poll more than a heeded request leaves.
  obtain ⟨s', ls, run, two⟩ := forgotten.polls 2
  have heard := (heeded (.begin :: ls) s' ((Machine.exec_cons begun ls).trans run)).1
  unfold polls at heard two
  rw [Machine.output_cons starts begun, List.length_append, two] at heard
  omega

/-- Where the loop is when `quit` is called. -/
theorem quit_spec (sound : s.Sound) {t : T} (called : s.step (.run (.quit t)) = some s') :
    s'.Sound ∧ s'.stage = s.stage ∧ (s.stage = .published ∨ s.stage = .looping) ∧
      (s.stage = .looping → s'.Quitting t) := by
  have after := sound.step called
  cases step_steps called with
  | run _ started once stored =>
    refine ⟨after, rfl, ?_, fun looping => ?_⟩
    · cases stage : s.stage with
      | published => exact .inl rfl
      | looping => exact .inr rfl
      | constructing => exact absurd stage (sound.started (started rfl))
      | finished => exact absurd stage (sound.running (once rfl)).2.2
    · cases EventLoop.step_steps stored with
      | quit free =>
        exact ⟨after.loop, .inl looping, rfl, Bool.or_true _,
          fun _ returned => absurd (update_self ..) returned⟩

end EventLoopThread

/-- In every interleaving with one call of `quit`, the loop thread starts at most one poll from
then on and is woken from one that goes on, exactly where `loop` had begun and set `quit_` to false
when `quit` sets it. It is the same from the return of `quit` on. -/
theorem EventLoopThread.quit_heeded_iff {T F : Type*} [DecidableEq T] {s s' : EventLoopThread T F}
    (reached : (machine T F).Reachable s) {t : T} (called : s.step (.run (.quit t)) = some s') :
    (s'.Heeded t ↔ s.stage = .looping) ∧ ∀ s'', s'.step (.run (.wakeup (some t))) = some s'' →
      (s''.Heeded t ↔ s.stage = .looping) := by
  obtain ⟨sound, same, published | looping, quitting⟩ := quit_spec (sound reached) called
  · -- `loop` is still to begin, and forgets the request.
    have late : ¬s.stage = .looping := by
      rw [published]
      decide
    have stage := same.trans published
    refine ⟨iff_of_false (not_heeded sound.loop stage (sound.early (.inr stage)) t) late, ?_⟩
    intro s'' returned
    have sound := sound.step returned
    cases step_steps returned with
    | run => exact iff_of_false (not_heeded sound.loop stage (sound.early (.inr stage)) t) late
  · have quitting := quitting looping
    refine ⟨iff_of_true quitting.heeded looping, fun s'' returned => ?_⟩
    exact iff_of_true (quitting.step returned).heeded looping

namespace EventLoopThread

/-- `startLoop` has returned and the loop polls. -/
def begun : List (Label Nat Nat) := [.publish, .startLoop, .begin, .run .check]

/-- After `quit`, the loop begins, handles the wakeup and polls again. -/
def again : List (Label Nat Nat) :=
  [.run (.wakeup (some 0)), .begin, .run .check, .run (.poll [.wakeup]), .run .handled,
    .run .startFunctors, .run .swap, .run .endFunctors, .run .handleExpired, .run .check]

theorem quit_heeded_iff_begun : ∃ s s', (machine Nat Nat).exec new begun = some s ∧
    s.loop.point = .polling ∧ s.step (.run (.quit 0)) = some s' ∧ s'.Heeded 0 := by
  have allowed : (machine Nat Nat).Along (fun _ _ _ => True) new begun := by decide
  obtain ⟨s, run, point, stage, called⟩ := Machine.exec_any (M := machine Nat Nat)
    (fun s => s.loop.point = .polling ∧ s.stage = .looping ∧
      (s.step (.run (.quit 0))).isSome) new begun (by decide)
  obtain ⟨s', called⟩ := Option.isSome_iff_exists.mp called
  have reached := Machine.reachable_exec (.init rfl) allowed run
  exact ⟨s, s', run, point, called, (quit_heeded_iff reached called).1.mpr stage⟩

/-- `quit` returns before `loop` has begun, which then blocks in its second poll. -/
theorem quit_before_loop_is_lost : ∃ s s' s'',
    (machine Nat Nat).exec new [.publish, .startLoop] = some s ∧
    s.step (.run (.quit 0)) = some s' ∧ (machine Nat Nat).exec s' again = some s'' ∧
    (s'.polls again = 2 ∧ s''.loop.point = .polling ∧ s''.loop.call (some 0) = .idle ∧
      ¬s''.loop.wakeupFd_.Pending) ∧ ¬s'.Heeded 0 := by
  refine ⟨_, _, _, rfl, rfl, rfl, ⟨rfl, rfl, rfl, by decide⟩, fun heeded => ?_⟩
  have polls := (heeded again _ rfl).1
  exact absurd polls (by decide)

end EventLoopThread

end LightAgent

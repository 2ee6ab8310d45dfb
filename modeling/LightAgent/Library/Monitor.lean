import LightAgent.Library.Simulation
import Mathlib.Algebra.BigOperators.Group.Finset.Basic
import Mathlib.Data.Fintype.Basic
import Mathlib.Logic.Function.Basic

/-!
# Threads that wait for each other

Each thread has its calls to make, one after another. A call is a block under a mutex: it waits
until it is ready, asleep on a condition variable; then it changes the shared data, and notifies.
Two machines run the same calls: `sleeping` is what the code does, with threads that sleep until
they are notified, or are woken for no reason; in `waiting` a call is made when it is ready.
Where notices are sent whenever a call gets ready, the one does what the other does.
-/
namespace LightAgent.Library

open Function

/-- What is sent to the threads that sleep. -/
inductive Notice (C : Type*) where
  | none
  /-- to one of those on the condition variable, if there are any -/
  | one (c : C)
  | all (c : C)
  deriving DecidableEq, Repr

/-- A call: what it waits for and where, what it does, and what it notifies then. -/
structure Call (D C : Type*) where
  ready : D → Bool
  /-- without one, the call is not tried before it is ready -/
  cond : Option C
  body : D → D
  notice : D → Notice C

def Notice.map {B C : Type*} (f : C → B) : Notice C → Notice B
  | .none => .none
  | .one c => .one (f c)
  | .all c => .all (f c)

/-- A call of an object that is a part of other data. -/
def Call.within {B C D E : Type*} (call : Call D C) (get : E → D) (put : D → E → E) (f : C → B) :
    Call E B where
  ready e := call.ready (get e)
  cond := call.cond.map f
  body e := put (call.body (get e)) e
  notice e := (call.notice (get e)).map f

/-- Shared data, and the calls that each thread has still to make. -/
structure Threads (T A D : Type*) where
  data : D
  rest : T → List A

/-- The same with threads that sleep. -/
structure Sleepers (T A D : Type*) extends Threads T A D where
  asleep : T → Bool

namespace Threads

variable {T A D C : Type*} [DecidableEq T] (call : A → Call D C)

/-- The thread makes its next call. -/
def done (s : Threads T A D) (t : T) (a : A) (as : List A) : Threads T A D where
  data := (call a).body s.data
  rest := update s.rest t as

@[simp] theorem done_self (s : Threads T A D) (t : T) (a : A) (as : List A) :
    (s.done call t a as).rest t = as := update_self _ _ _

theorem done_of_ne (s : Threads T A D) {t u : T} (other : u ≠ t) (a : A) (as : List A) :
    (s.done call t a as).rest u = s.rest u := update_of_ne other _ _

def step (s : Threads T A D) (t : T) : Option (Threads T A D) :=
  match s.rest t with
  | [] => none
  | a :: as => if (call a).ready s.data then some (s.done call t a as) else none

/-- Each thread starts with its program. -/
def waiting (programs : T → List A) (data : D) : Machine (Threads T A D) T :=
  ⟨(· = ⟨data, programs⟩), step call⟩

/-- The call that is made, and by whom. -/
def made (s : Threads T A D) (t : T) : List (T × A) := ((s.rest t).head?.map (t, ·)).toList

theorem step_inv {s s' : Threads T A D} {t : T} (taken : s.step call t = some s') :
    ∃ a as, s.rest t = a :: as ∧ (call a).ready s.data = true ∧ s.made t = [(t, a)] ∧
      s' = s.done call t a as := by
  unfold step at taken
  split at taken
  next => cases taken
  next a as rest =>
    split at taken
    next ready =>
      cases taken
      exact ⟨a, as, rest, ready, by simp [made, rest], rfl⟩
    next => cases taken

/-- Each call that is made was still to be made. -/
theorem made_length [Fintype T] {programs : T → List A} {data : D} {s s' : Threads T A D}
    {ts : List T} (run : (waiting call programs data).exec s ts = some s') :
    ((waiting call programs data).output made s ts).length + ∑ t, (s'.rest t).length =
      ∑ t, (s.rest t).length := by
  induction ts generalizing s with
  | nil =>
    cases run
    exact Nat.zero_add _
  | cons t ts ih =>
    obtain ⟨next, taken, later⟩ := Machine.exec_step run
    obtain ⟨a, as, rest, _, made_, rfl⟩ := step_inv call taken
    have rest' : ∑ u, ((s.done call t a as).rest u).length + 1 = ∑ u, (s.rest u).length := by
      rw [← Finset.add_sum_erase _ _ (Finset.mem_univ t), ← Finset.add_sum_erase _ _ (Finset.mem_univ t),
        done_self, rest, List.length_cons, Nat.add_right_comm]
      refine congrArg _ (Finset.sum_congr rfl fun u member => ?_)
      rw [done_of_ne _ _ (Finset.ne_of_mem_erase member)]
    rw [Machine.output_cons _ taken, made_, List.length_append, Nat.add_assoc, ih later, ← rest',
      Nat.add_comm]
    rfl

end Threads

namespace Sleepers

variable {T A D C : Type*} [DecidableEq T] [Fintype T] [DecidableEq C] (call : A → Call D C)

/-- The thread sleeps on the condition variable. -/
def sleepsAt (s : Sleepers T A D) (c : C) (t : T) : Prop :=
  s.asleep t = true ∧ (s.rest t).head?.bind (fun a => (call a).cond) = some c

instance (s : Sleepers T A D) (c : C) (t : T) : Decidable (s.sleepsAt call c t) :=
  inferInstanceAs (Decidable (_ ∧ _))

/-- Who sleeps behind the notice; `heard` is the thread that hears it where it goes to one. -/
def notified (s : Sleepers T A D) (heard : Option T) : Notice C → Option (T → Bool)
  | .none => some s.asleep
  | .all c => some fun t => s.asleep t && !decide (s.sleepsAt call c t)
  | .one c =>
    match heard with
    | some t => if s.sleepsAt call c t then some (update s.asleep t false) else none
    | none => if ∃ t, s.sleepsAt call c t then none else some s.asleep

inductive Label (T : Type*) where
  /-- the thread looks whether its next call is ready -/
  | run (t : T) (heard : Option T)
  /-- it is woken for no reason -/
  | wake (t : T)
  deriving DecidableEq

def step (s : Sleepers T A D) : Label T → Option (Sleepers T A D)
  | .run t heard =>
    match s.rest t with
    | [] => none
    | a :: as =>
      if s.asleep t then none
      else if (call a).ready s.data then
        let done := s.toThreads.done call t a as
        (s.notified call heard ((call a).notice done.data)).map fun asleep =>
          { done with asleep := asleep }
      else (call a).cond.map fun _ => { s with asleep := update s.asleep t true }
  | .wake t => if s.asleep t then some { s with asleep := update s.asleep t false } else none

def sleeping (programs : T → List A) (data : D) : Machine (Sleepers T A D) (Label T) :=
  ⟨(· = ⟨⟨data, programs⟩, fun _ => false⟩), step call⟩

/-- The call that a step makes. -/
def made (s : Sleepers T A D) : Label T → List (T × A)
  | .run t _ => (s.rest t).head?.toList.filter (fun a => (call a).ready s.data) |>.map (t, ·)
  | .wake _ => []

/-- All that a step can be. -/
inductive Steps (s : Sleepers T A D) : Label T → Sleepers T A D → Prop
  | call {t : T} {heard : Option T} {a : A} {as : List A} {asleep : T → Bool} :
      s.rest t = a :: as → s.asleep t = false → (call a).ready s.data = true →
      s.notified call heard ((call a).notice ((call a).body s.data)) = some asleep →
      Steps s (.run t heard) { s.toThreads.done call t a as with asleep := asleep }
  | sleep {t : T} {heard : Option T} {a : A} {as : List A} {c : C} :
      s.rest t = a :: as → (call a).ready s.data = false → (call a).cond = some c →
      Steps s (.run t heard) { s with asleep := update s.asleep t true }
  | wake {t : T} : Steps s (.wake t) { s with asleep := update s.asleep t false }

theorem step_steps {s s' : Sleepers T A D} {l : Label T} (taken : s.step call l = some s') :
    s.Steps call l s' := by
  cases l with
  | run t heard =>
    simp only [step] at taken
    split at taken
    next => cases taken
    next a as rest =>
      split at taken
      next => cases taken
      next awake =>
        split at taken
        next ready =>
          obtain ⟨asleep, heard, rfl⟩ := Option.map_eq_some_iff.mp taken
          exact .call rest (by simpa using awake) ready heard
        next unready =>
          obtain ⟨c, cond, rfl⟩ := Option.map_eq_some_iff.mp taken
          exact .sleep rest (by simpa using unready) cond
  | wake t =>
    simp only [step] at taken
    split at taken
    next => cases taken; exact .wake
    next => cases taken

variable (programs : T → List A) (data : D)

/-- What is made is made when it is ready. -/
theorem sleeping_refines : Machine.Refines (sleeping call programs data)
    (Threads.waiting call programs data) (fun s r => s.toThreads = r) (made call) Threads.made where
  init s start := by
    cases start
    exact ⟨_, _, rfl, .refl _, rfl⟩
  step s l s' r same taken := by
    subst same
    cases step_steps call taken with
    | @call t heard a as asleep rest awake ready notified =>
      have makes : (Threads.waiting call programs data).step s.toThreads t =
          some (s.toThreads.done call t a as) := by
        simp [Threads.waiting, Threads.step, rest, ready]
      have shown : made call s (.run t heard) = s.toThreads.made t := by
        simp [made, Threads.made, rest, ready]
      exact ⟨_, shown ▸ .step makes, rfl⟩
    | @sleep t heard a as c rest unready _ =>
      have silent : made call s (.run t heard) = [] := by simp [made, rest, unready]
      rw [silent]
      exact ⟨_, .refl _, rfl⟩
    | wake => exact ⟨_, .refl _, rfl⟩

/-- Whoever makes a call ready that another thread may sleep for notifies it, and where that goes
to one thread no other one sleeps there. -/
structure Heeded : Prop where
  heeds : ∀ t, ∀ a ∈ programs t, ∀ u, ∀ b ∈ programs u, ∀ c d, (call a).cond = some c →
    (call a).ready d = false → (call a).ready ((call b).body d) = true →
    (call b).notice ((call b).body d) = .all c ∨ (call b).notice ((call b).body d) = .one c
  alone : ∀ u, ∀ b ∈ programs u, ∀ c d, (call b).notice d = .one c → ∀ t, ∀ a ∈ programs t,
    (call a).cond = some c → ∀ t', ∀ a' ∈ programs t', (call a').cond = some c → t = t'

/-- A thread sleeps only for a call that is not ready. -/
structure Attentive (s : Sleepers T A D) : Prop where
  rest : ∀ t, s.rest t <:+ programs t
  asleep : ∀ t, s.asleep t = true → ∃ a as c, s.rest t = a :: as ∧ (call a).cond = some c ∧
    (call a).ready s.data = false

variable {call programs} {s s' : Sleepers T A D}

omit [DecidableEq T] [Fintype T] [DecidableEq C] in
theorem Attentive.next (attentive : s.Attentive call programs) {t : T} {a : A} {as : List A}
    (rest : s.rest t = a :: as) : a ∈ programs t :=
  (attentive.rest t).subset (rest ▸ List.mem_cons_self ..)

/-- Nobody falls asleep by a notice. -/
theorem asleep_of_notified {heard : Option T} {notice : Notice C} {asleep : T → Bool}
    (notified : s.notified call heard notice = some asleep) {t : T} (sleeps : asleep t = true) :
    s.asleep t = true := by
  cases notice with
  | none =>
    cases notified
    exact sleeps
  | all c =>
    cases notified
    simp only [Bool.and_eq_true] at sleeps
    exact sleeps.1
  | one c =>
    simp only [Sleepers.notified] at notified
    split at notified
    next u =>
      split at notified
      next =>
        cases notified
        by_cases same : t = u
        · simp [same] at sleeps
        · rwa [update_of_ne same] at sleeps
      next => cases notified
    next =>
      split at notified
      next => cases notified
      next => cases notified; exact sleeps

omit [DecidableEq T] [Fintype T] [DecidableEq C] in
theorem sleepsAt_iff {c : C} {t : T} : s.sleepsAt call c t ↔
    s.asleep t = true ∧ ∃ a as, s.rest t = a :: as ∧ (call a).cond = some c := by
  unfold sleepsAt
  cases s.rest t with
  | nil => simp
  | cons a as => simp

/-- Behind a notice no thread sleeps for what is ready now. -/
theorem Attentive.heard (attentive : s.Attentive call programs) (heeded : Heeded call programs)
    {u : T} {b : A} (member : b ∈ programs u) {heard : Option T} {asleep : T → Bool}
    (notified : s.notified call heard ((call b).notice ((call b).body s.data)) = some asleep)
    {t : T} (sleeps : asleep t = true) : ∃ a as c, s.rest t = a :: as ∧ (call a).cond = some c ∧
      (call a).ready ((call b).body s.data) = false := by
  have slept := asleep_of_notified notified sleeps
  obtain ⟨a, as, c, rest, cond, unready⟩ := attentive.asleep t slept
  refine ⟨a, as, c, rest, cond, ?_⟩
  by_contra ready
  have there : s.sleepsAt call c t := sleepsAt_iff.mpr ⟨slept, a, as, rest, cond⟩
  rcases heeded.heeds t a (attentive.next rest) u b member c s.data cond unready
    (by simpa using ready) with all | one
  · rw [all] at notified
    cases notified
    simp [there] at sleeps
  · rw [one] at notified
    simp only [Sleepers.notified] at notified
    split at notified
    next v =>
      split at notified
      next sleeper =>
        -- The thread that hears it is the only one that sleeps there.
        obtain ⟨_, a', as', rest', cond'⟩ := sleepsAt_iff.mp sleeper
        have same := heeded.alone u b member c _ one t a (attentive.next rest) cond v a'
          (attentive.next rest') cond'
        cases notified
        simp [same] at sleeps
      next => cases notified
    next =>
      split at notified
      next => cases notified
      next nobody => exact nobody ⟨t, there⟩

omit [DecidableEq T] [Fintype T] [DecidableEq C] in
theorem attentive_init (programs : T → List A) (data : D) :
    Attentive call programs ⟨⟨data, programs⟩, fun _ => false⟩ :=
  ⟨fun _ => List.suffix_refl _, by simp⟩

theorem Attentive.step (attentive : s.Attentive call programs) (heeded : Heeded call programs)
    {l : Label T} (taken : s.step call l = some s') : s'.Attentive call programs := by
  cases step_steps call taken with
  | @call u heard b bs asleep rest awake ready notified =>
    constructor
    · intro t
      by_cases same : t = u
      · subst same
        change update s.rest t bs t <:+ _
        rw [update_self]
        exact (List.suffix_cons b bs).trans (rest ▸ attentive.rest t)
      · change update s.rest u bs t <:+ _
        rw [update_of_ne same]
        exact attentive.rest t
    · intro t sleeps
      obtain ⟨a, as, c, waits, cond, unready⟩ :=
        attentive.heard heeded (attentive.next rest) notified sleeps
      -- The thread that has made the call was not asleep.
      have other : t ≠ u := by
        rintro rfl
        exact absurd (asleep_of_notified notified sleeps) (by simp [awake])
      refine ⟨a, as, c, ?_, cond, unready⟩
      change update s.rest u bs t = _
      rw [update_of_ne other]
      exact waits
  | @sleep u heard a as c rest unready cond =>
    refine ⟨attentive.rest, fun t sleeps => ?_⟩
    by_cases same : t = u
    · subst same
      exact ⟨a, as, c, rest, cond, unready⟩
    · exact attentive.asleep t (by simpa [same] using sleeps)
  | @wake u =>
    refine ⟨attentive.rest, fun t sleeps => attentive.asleep t ?_⟩
    by_cases same : t = u
    · simp [same] at sleeps
    · simpa [same] using sleeps

theorem attentive {data : D} (heeded : Heeded call programs)
    (reached : (sleeping call programs data).Reachable s) : s.Attentive call programs :=
  Machine.invariant (fun _ start => start ▸ attentive_init programs data)
    (fun _ _ _ attentive taken => attentive.step heeded taken) reached

/-- No notice is lost: the thread whose next call is ready is awake, and makes it. -/
theorem Attentive.ready (attentive : s.Attentive call programs) {t : T} {r : Threads T A D}
    (ready : s.toThreads.step call t = some r) :
    s.asleep t = false ∧ ∃ heard s', s.step call (.run t heard) = some s' ∧ s'.toThreads = r := by
  unfold Threads.step at ready
  split at ready
  next => cases ready
  next a as rest =>
    split at ready
    next now =>
      cases ready
      have awake : s.asleep t = false := by
        by_contra sleeps
        obtain ⟨a', as', c, rest', _, unready⟩ := attentive.asleep t (by simpa using sleeps)
        rw [rest] at rest'
        cases rest'
        exact absurd now (by simp [unready])
      refine ⟨awake, ?_⟩
      -- Some thread hears a notice that goes to one, if any sleeps there.
      have hears : ∃ heard asleep, s.notified call heard
          ((call a).notice ((call a).body s.data)) = some asleep := by
        cases (call a).notice ((call a).body s.data) with
        | none => exact ⟨none, _, rfl⟩
        | all c => exact ⟨none, _, rfl⟩
        | one c =>
          by_cases sleeper : ∃ u, s.sleepsAt call c u
          · obtain ⟨u, there⟩ := sleeper
            exact ⟨some u, _, if_pos there⟩
          · exact ⟨none, _, if_neg sleeper⟩
      obtain ⟨heard, asleep, notified⟩ := hears
      refine ⟨heard, { s.toThreads.done call t a as with asleep := asleep }, ?_, rfl⟩
      simp only [Sleepers.step, rest, awake, now, if_true, Bool.false_eq_true, if_false]
      exact Option.map_eq_some_iff.mpr ⟨asleep, notified, rfl⟩
    next => cases ready

end Sleepers

end LightAgent.Library

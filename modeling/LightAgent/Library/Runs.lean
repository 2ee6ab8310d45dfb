import Mathlib.Algebra.Order.Ring.Nat
import Mathlib.Data.List.Induction
import Mathlib.Tactic.Common

/-!
# Runs of a labelled machine

A machine is a set of initial states and an executable step function that is
undefined where a label is not enabled. Interleavings are lists of labels. A
guard restricts the steps a run may take; invariants of guarded runs and the
comparison of two properties of every step of a run are proved once here.
-/
namespace LightAgent.Library

/-- A labelled transition machine with an executable step. -/
structure Machine (State Label : Type*) where
  init : State → Prop
  step : State → Label → Option State

namespace Machine

variable {State Label : Type*} (M : Machine State Label)

/-- The labels taken in order; undefined as soon as one is not enabled. -/
def exec : State → List Label → Option State
  | s, [] => some s
  | s, l :: ls => (M.step s l).bind fun s' => exec s' ls

/-- States reached by runs every step of which meets `guard`. -/
inductive ReachableUnder (guard : State → Label → Prop) : State → Prop
  | init {s : State} : M.init s → ReachableUnder guard s
  | step {s s' : State} {l : Label} :
      ReachableUnder guard s → guard s l → M.step s l = some s' → ReachableUnder guard s'

/-- States reached by any run at all. -/
abbrev Reachable : State → Prop := M.ReachableUnder fun _ _ => True

/-- Every step of the run from `s` along the labels satisfies `P`. -/
def Along (P : State → Label → State → Prop) : State → List Label → Prop
  | _, [] => True
  | s, l :: ls =>
    match M.step s l with
    | some s' => P s l s' ∧ Along P s' ls
    | none => True

/-- What the steps of the run from `s` along the labels put out, in their order. -/
def output {α : Type*} (out : State → Label → List α) : State → List Label → List α
  | _, [] => []
  | s, l :: ls =>
    match M.step s l with
    | some s' => out s l ++ output out s' ls
    | none => []

/-- Every label that the run from `s` comes to satisfies `P`, also the one at which it is stuck. -/
def Attempted (P : State → Label → Prop) : State → List Label → Prop
  | _, [] => True
  | s, l :: ls => P s l ∧ ∀ s' ∈ M.step s l, Attempted P s' ls

instance decideAttempted (P : State → Label → Prop) [∀ s l, Decidable (P s l)] :
    (s : State) → (ls : List Label) → Decidable (M.Attempted P s ls)
  | _, [] => .isTrue trivial
  | s, l :: ls =>
    have : ∀ s', Decidable (M.Attempted P s' ls) := fun s' => decideAttempted P s' ls
    inferInstanceAs (Decidable (P s l ∧ ∀ _ ∈ _, _))

instance decideAlong (P : State → Label → State → Prop) [∀ s l s', Decidable (P s l s')] :
    (s : State) → (ls : List Label) → Decidable (M.Along P s ls)
  | _, [] => .isTrue trivial
  | s, l :: ls =>
    match taken : M.step s l with
    | some s' =>
      have := decideAlong P s' ls
      decidable_of_iff (P s l s' ∧ M.Along P s' ls) (by rw [Along, taken])
    | none => .isTrue (by rw [Along, taken]; trivial)

variable {M}

/-- What holds initially and is kept by every guarded step holds of every
state a guarded run reaches. -/
theorem invariant_under {guard : State → Label → Prop} {I : State → Prop}
    (initial : ∀ s, M.init s → I s)
    (preserved : ∀ s l s', I s → guard s l → M.step s l = some s' → I s')
    {s : State} (reached : M.ReachableUnder guard s) : I s := by
  induction reached with
  | init start => exact initial _ start
  | step _ allowed taken ih => exact preserved _ _ _ ih allowed taken

theorem invariant {I : State → Prop} (initial : ∀ s, M.init s → I s)
    (preserved : ∀ s l s', I s → M.step s l = some s' → I s')
    {s : State} (reached : M.Reachable s) : I s :=
  invariant_under initial (fun s l s' h _ taken => preserved s l s' h taken) reached

/-- A run that goes through takes its first step and goes on. -/
theorem exec_step {s s' : State} {l : Label} {ls : List Label} (run : M.exec s (l :: ls) = some s') :
    ∃ next, M.step s l = some next ∧ M.exec next ls = some s' :=
  Option.bind_eq_some_iff.mp run

/-- A run every step of which meets the guard leads to a state that guarded runs reach. -/
theorem reachable_exec {guard : State → Label → Prop} {s s' : State} {ls : List Label}
    (start : M.ReachableUnder guard s) (allowed : M.Along (fun s l _ => guard s l) s ls)
    (run : M.exec s ls = some s') : M.ReachableUnder guard s' := by
  induction ls generalizing s with
  | nil => cases run; exact start
  | cons l ls ih =>
    obtain ⟨next, taken, rest⟩ := exec_step run
    rw [Along, taken] at allowed
    exact ih (.step start allowed.1 taken) allowed.2 rest

/-- What every guarded step keeps is kept by a guarded run from any state. -/
theorem invariant_exec_under {guard : State → Label → Prop} {I : State → Prop}
    (preserved : ∀ s l s', I s → guard s l → M.step s l = some s' → I s')
    {s s' : State} {ls : List Label} (start : I s)
    (allowed : M.Along (fun s l _ => guard s l) s ls) (run : M.exec s ls = some s') : I s' := by
  induction ls generalizing s with
  | nil => cases run; exact start
  | cons l ls ih =>
    obtain ⟨next, taken, rest⟩ := exec_step run
    rw [Along, taken] at allowed
    exact ih (preserved s l next start allowed.1 taken) allowed.2 rest

theorem invariant_exec {I : State → Prop}
    (preserved : ∀ s l s', I s → M.step s l = some s' → I s')
    {s s' : State} {ls : List Label} (start : I s) (run : M.exec s ls = some s') : I s' := by
  induction ls generalizing s with
  | nil => cases run; exact start
  | cons l ls ih =>
    obtain ⟨next, taken, rest⟩ := exec_step run
    exact ih (preserved s l next start taken) rest

theorem exec_cons {s s' : State} {l : Label} (taken : M.step s l = some s') (ls : List Label) :
    M.exec s (l :: ls) = M.exec s' ls := by
  rw [exec, taken]
  rfl

theorem exec_append {s s' : State} {ls : List Label} (run : M.exec s ls = some s')
    (rest : List Label) : M.exec s (ls ++ rest) = M.exec s' rest := by
  induction ls generalizing s with
  | nil => cases run; rfl
  | cons l ls ih =>
    obtain ⟨next, taken, remaining⟩ := exec_step run
    rw [List.cons_append, exec_cons taken]
    exact ih remaining

theorem exec_concat {s s' : State} {ls : List Label} {l : Label}
    (run : M.exec s (ls ++ [l]) = some s') :
    ∃ m, M.exec s ls = some m ∧ M.step m l = some s' := by
  induction ls generalizing s with
  | nil =>
    obtain ⟨next, taken, rest⟩ := exec_step run
    cases rest
    exact ⟨s, rfl, taken⟩
  | cons k ls ih =>
    obtain ⟨next, taken, rest⟩ := exec_step run
    obtain ⟨m, before, last⟩ := ih rest
    exact ⟨m, (exec_cons taken ls).trans before, last⟩

/-- A run into `P` comes into it a last time; `Q` holds of the steps it takes within. -/
theorem exec_entered {P : State → Prop} {Q : Label → Prop}
    (within : ∀ s l s', P s → M.step s l = some s' → P s' → Q l)
    {s s' : State} {ls : List Label} (run : M.exec s ls = some s') (out : ¬P s) (inside : P s') :
    ∃ before l between m m', ls = before ++ l :: between ∧ M.exec s before = some m ∧
      ¬P m ∧ M.step m l = some m' ∧ P m' ∧ M.exec m' between = some s' ∧ ∀ k ∈ between, Q k := by
  -- From the end of the run: the last step comes into `P`, or the run before it did.
  induction ls using List.reverseRecOn generalizing s' with
  | nil => cases run; exact absurd inside out
  | append_singleton ls l ih =>
    obtain ⟨m, front, taken⟩ := exec_concat run
    by_cases already : P m
    · obtain ⟨before, k, between, m₁, m₂, rfl, first, out₁, enters, inside₂, rest, all⟩ :=
        ih front already
      refine ⟨before, k, between ++ [l], m₁, m₂, by simp, first, out₁, enters, inside₂, ?_, ?_⟩
      · rw [exec_append rest, exec_cons taken]
        rfl
      · intro k' member
        rcases List.mem_append.mp member with earlier | last
        · exact all k' earlier
        · rw [List.mem_singleton.mp last]
          exact within m l s' already taken inside
    · exact ⟨ls, l, [], m, s', rfl, front, already, taken, inside, rfl, by simp⟩

/-- A decidable property of the state that a run leads to. -/
theorem exec_any (P : State → Prop) [DecidablePred P] (s : State) (ls : List Label)
    (found : (M.exec s ls).any (fun s' => P s') = true) : ∃ s', M.exec s ls = some s' ∧ P s' := by
  cases run : M.exec s ls with
  | none => rw [run] at found; cases found
  | some s' =>
    rw [run] at found
    exact ⟨s', rfl, of_decide_eq_true found⟩

/-- What holds along a run holds along what is left of it. -/
theorem along_append {P : State → Label → State → Prop} {s s' : State} {ls rest : List Label}
    (run : M.exec s ls = some s') (along : M.Along P s (ls ++ rest)) : M.Along P s' rest := by
  induction ls generalizing s with
  | nil => cases run; exact along
  | cons l ls ih =>
    obtain ⟨next, taken, remaining⟩ := exec_step run
    rw [List.cons_append, Along, taken] at along
    exact ih remaining along.2

theorem output_cons {α : Type*} (out : State → Label → List α) {s s' : State} {l : Label}
    (taken : M.step s l = some s') (ls : List Label) :
    M.output out s (l :: ls) = out s l ++ M.output out s' ls := by
  rw [output, taken]

/-- Runs from a state of an invariant are silent if its steps are. -/
theorem output_eq_nil {α : Type*} {out : State → Label → List α} {I : State → Prop}
    {ls : List Label} (silent : ∀ s l, l ∈ ls → I s → out s l = [])
    (preserved : ∀ s l s', I s → M.step s l = some s' → I s')
    {s : State} (start : I s) : M.output out s ls = [] := by
  induction ls generalizing s with
  | nil => rfl
  | cons l ls ih =>
    rw [output]
    cases taken : M.step s l with
    | none => rfl
    | some s' =>
      dsimp only
      rw [silent s l (List.mem_cons_self ..) start]
      exact ih (fun s l member => silent s l (List.mem_cons_of_mem _ member))
        (preserved s l s' start taken)

theorem output_append {α : Type*} (out : State → Label → List α) {s s' : State} {ls : List Label}
    (run : M.exec s ls = some s') (rest : List Label) :
    M.output out s (ls ++ rest) = M.output out s ls ++ M.output out s' rest := by
  induction ls generalizing s with
  | nil => cases run; rfl
  | cons l ls ih =>
    obtain ⟨next, taken, remaining⟩ := exec_step run
    rw [List.cons_append, output_cons out taken, output_cons out taken, ih remaining,
      List.append_assoc]

/-- What steps keep of a state and of all that has been put out is kept by a run. -/
theorem invariant_output {α : Type*} {out : State → Label → List α} {I : State → List α → Prop}
    (preserved : ∀ s l s' outs, I s outs → M.step s l = some s' → I s' (outs ++ out s l))
    {s s' : State} {ls : List Label} {outs : List α} (start : I s outs)
    (run : M.exec s ls = some s') : I s' (outs ++ M.output out s ls) := by
  induction ls generalizing s outs with
  | nil =>
    cases run
    rw [output, List.append_nil]
    exact start
  | cons l ls ih =>
    obtain ⟨next, taken, rest⟩ := exec_step run
    rw [output_cons out taken, ← List.append_assoc]
    exact ih (preserved s l next outs start taken) rest

theorem along_singleton {P : State → Label → State → Prop} {s s' : State} {l : Label}
    (taken : M.step s l = some s') : M.Along P s [l] ↔ P s l s' := by
  rw [Along, taken]
  exact and_iff_left trivial

/-- What every step from an invariant state satisfies holds along every run. -/
theorem along_of_invariant {I : State → Prop} {P : State → Label → State → Prop}
    (holds : ∀ s l s', I s → M.step s l = some s' → P s l s')
    (preserved : ∀ s l s', I s → M.step s l = some s' → I s')
    {s : State} (start : I s) (ls : List Label) : M.Along P s ls := by
  induction ls generalizing s with
  | nil => trivial
  | cons l ls ih =>
    rw [Along]
    cases taken : M.step s l with
    | none => trivial
    | some s' => exact ⟨holds s l s' start taken, ih (preserved s l s' start taken)⟩

/-- A step property that another one implies holds along every run the other holds along. -/
theorem along_mono {P Q : State → Label → State → Prop} (implies : ∀ s l s', P s l s' → Q s l s')
    {s : State} {ls : List Label} (along : M.Along P s ls) : M.Along Q s ls := by
  induction ls generalizing s with
  | nil => trivial
  | cons l ls ih =>
    rw [Along] at along ⊢
    cases taken : M.step s l with
    | none => trivial
    | some s' =>
      rw [taken] at along
      exact ⟨implies s l s' along.1, ih along.2⟩

theorem along_and {P Q : State → Label → State → Prop} {s : State} {ls : List Label} :
    M.Along (fun s l s' => P s l s' ∧ Q s l s') s ls ↔ M.Along P s ls ∧ M.Along Q s ls := by
  induction ls generalizing s with
  | nil => exact (and_self_iff).symm
  | cons l ls ih =>
    rw [Along, Along, Along]
    cases taken : M.step s l with
    | none => exact (and_self_iff).symm
    | some s' =>
      dsimp only
      rw [ih]
      exact and_and_and_comm

/-- Two step properties agree along a run when they agree at each of its steps from an
invariant state and the second keeps the invariant. -/
theorem along_iff {I : State → Prop} {P Q : State → Label → State → Prop} (ls : List Label)
    (agree : ∀ s l s', l ∈ ls → I s → M.step s l = some s' → (P s l s' ↔ Q s l s'))
    (preserved : ∀ s l s', l ∈ ls → I s → M.step s l = some s' → Q s l s' → I s')
    {s : State} (start : I s) : M.Along P s ls ↔ M.Along Q s ls := by
  induction ls generalizing s with
  | nil => exact Iff.rfl
  | cons l ls ih =>
    rw [Along, Along]
    cases taken : M.step s l with
    | none => exact Iff.rfl
    | some s' =>
      have same := agree s l s' (List.mem_cons_self ..) start taken
      have rest (good : Q s l s') : M.Along P s' ls ↔ M.Along Q s' ls := by
        refine ih (fun s l s' member => agree s l s' (List.mem_cons_of_mem _ member))
          (fun s l s' member => preserved s l s' (List.mem_cons_of_mem _ member)) ?_
        exact preserved s l s' (List.mem_cons_self ..) start taken good
      constructor
      · rintro ⟨good, tail⟩
        have cond := same.mp good
        exact ⟨cond, (rest cond).mp tail⟩
      · rintro ⟨cond, tail⟩
        exact ⟨same.mpr cond, (rest cond).mpr tail⟩

/-- A bound on what is left to do, which every step of an invariant lowers by its cost and raises
by its gain, bounds the costs of a run. -/
theorem exec_potential {I : State → Prop} (left_ : State → Nat) (cost gain : Label → Nat)
    {s s' : State} {ls : List Label}
    (pays : ∀ s l s', l ∈ ls → I s → M.step s l = some s' → left_ s' + cost l ≤ left_ s + gain l)
    (preserved : ∀ s l s', I s → M.step s l = some s' → I s')
    (start : I s) (run : M.exec s ls = some s') :
    left_ s' + (ls.map cost).sum ≤ left_ s + (ls.map gain).sum := by
  induction ls generalizing s with
  | nil => cases run; exact Nat.le_refl _
  | cons l ls ih =>
    obtain ⟨next, taken, rest⟩ := exec_step run
    have here := pays s l next (List.mem_cons_self ..) start taken
    have later := ih (fun s l s' member => pays s l s' (List.mem_cons_of_mem _ member))
      (preserved s l next start taken) rest
    simp only [List.map_cons, List.sum_cons]
    omega

end Machine

end LightAgent.Library

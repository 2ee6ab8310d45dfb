import LightAgent.Library.Runs

/-!
# Refinement between machines

Where each step of a machine is a run of another one that puts out the same, every run of the
first is a run of the second with its output, up to the relation between their states; what holds
of all states of the second comes back through that relation.
-/
namespace LightAgent.Library.Machine

variable {S T L K α : Type*} {M : Machine S L} {N : Machine T K}
  {out : S → L → List α} {out' : T → K → List α}

/-- Some run from the one state to the other puts this out. -/
def Puts (M : Machine S L) (out : S → L → List α) (s : S) (outs : List α) (s' : S) : Prop :=
  ∃ ls, M.exec s ls = some s' ∧ M.output out s ls = outs

theorem Puts.refl (s : S) : M.Puts out s [] s := ⟨[], rfl, rfl⟩

theorem Puts.step {s s' : S} {l : L} (taken : M.step s l = some s') : M.Puts out s (out s l) s' := by
  refine ⟨[l], exec_cons taken [], ?_⟩
  rw [output_cons out taken, output, List.append_nil]

theorem Puts.trans {s₁ s₂ s₃ : S} {outs₁ outs₂ : List α} (first : M.Puts out s₁ outs₁ s₂)
    (second : M.Puts out s₂ outs₂ s₃) : M.Puts out s₁ (outs₁ ++ outs₂) s₃ := by
  obtain ⟨ls₁, run₁, rfl⟩ := first
  obtain ⟨ls₂, run₂, rfl⟩ := second
  exact ⟨ls₁ ++ ls₂, (exec_append run₁ ls₂).trans run₂, output_append out run₁ ls₂⟩

theorem output_labels {s s' : S} {ls : List L} (run : M.exec s ls = some s') :
    M.output (fun _ l => [l]) s ls = ls := by
  induction ls generalizing s with
  | nil => rfl
  | cons l ls ih =>
    obtain ⟨next, taken, rest⟩ := exec_step run
    rw [output_cons _ taken, ih rest, List.singleton_append]

/-- A run that puts out its labels is told by its output. -/
theorem Puts.exec {s s' : S} {ls : List L} (puts : M.Puts (fun _ l => [l]) s ls s') :
    M.exec s ls = some s' := by
  obtain ⟨ks, run, same⟩ := puts
  rwa [← same, output_labels run]

/-- From related states, a step of `M` is a run of `N` with the same output. -/
structure Refines (M : Machine S L) (N : Machine T K) (R : S → T → Prop)
    (out : S → L → List α) (out' : T → K → List α) : Prop where
  init : ∀ s, M.init s → ∃ t₀ t, N.init t₀ ∧ N.Puts out' t₀ [] t ∧ R s t
  step : ∀ s l s' t, R s t → M.step s l = some s' → ∃ t', N.Puts out' t (out s l) t' ∧ R s' t'

namespace Refines

variable {R : S → T → Prop}

theorem exec (refines : Refines M N R out out') {s s' : S} {t : T} {ls : List L}
    (related : R s t) (run : M.exec s ls = some s') :
    ∃ t', N.Puts out' t (M.output out s ls) t' ∧ R s' t' := by
  induction ls generalizing s t with
  | nil =>
    cases run
    exact ⟨t, .refl t, related⟩
  | cons l ls ih =>
    obtain ⟨next, taken, rest⟩ := exec_step run
    obtain ⟨t₁, first, still⟩ := refines.step s l next t related taken
    obtain ⟨t₂, second, ends⟩ := ih still rest
    rw [output_cons out taken]
    exact ⟨t₂, first.trans second, ends⟩

/-- A run of the one machine is a run of the other. -/
theorem run (refines : Refines M N R out out') {s s' : S} {ls : List L} (start : M.init s)
    (run : M.exec s ls = some s') :
    ∃ t₀ t', N.init t₀ ∧ N.Puts out' t₀ (M.output out s ls) t' ∧ R s' t' := by
  obtain ⟨t₀, t, first, silent, related⟩ := refines.init s start
  obtain ⟨t', puts, ends⟩ := refines.exec related run
  exact ⟨t₀, t', first, silent.trans puts, ends⟩

end Refines

end LightAgent.Library.Machine

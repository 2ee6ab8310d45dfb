import Mathlib.Data.List.Basic
import Mathlib.Tactic.Common

/-!
# Maps kept sorted by key

An ordered map as `std::map` has it: entries in strictly increasing key order,
an assignment replaces the value of a key that is present. The order is part of
the type, so every map met in a proof is sorted and holds each key once.
-/
namespace LightAgent.Library

variable {κ ν : Type*} [LT κ] [LE κ] [Std.IsLinearOrder κ] [Std.LawfulOrderLT κ] [DecidableLT κ]

/-- The entries after assigning `v` to `k`. -/
def assignSorted (k : κ) (v : ν) : List (κ × ν) → List (κ × ν)
  | [] => [(k, v)]
  | e :: es => if k < e.1 then (k, v) :: e :: es
    else if e.1 < k then e :: assignSorted k v es
    else (k, v) :: es

omit [LE κ] [Std.IsLinearOrder κ] [Std.LawfulOrderLT κ] in
theorem mem_assignSorted {k : κ} {v : ν} {es : List (κ × ν)} {e : κ × ν}
    (member : e ∈ assignSorted k v es) : e = (k, v) ∨ e ∈ es := by
  induction es with
  | nil => simpa [assignSorted] using member
  | cons first rest ih =>
    unfold assignSorted at member
    split at member
    · simpa using member
    · split at member
      · rcases List.mem_cons.mp member with rfl | member
        · exact .inr (by simp)
        · exact (ih member).imp_right (List.mem_cons_of_mem _)
      · exact (List.mem_cons.mp member).imp_right (List.mem_cons_of_mem _)

theorem assignSorted_sorted (k : κ) (v : ν) {es : List (κ × ν)}
    (sorted : es.Pairwise (·.1 < ·.1)) : (assignSorted k v es).Pairwise (·.1 < ·.1) := by
  induction es with
  | nil => simp [assignSorted]
  | cons first rest ih =>
    obtain ⟨below, tail⟩ := List.pairwise_cons.mp sorted
    unfold assignSorted
    split
    next lt =>
      refine List.pairwise_cons.mpr ⟨?_, sorted⟩
      intro e member
      rcases List.mem_cons.mp member with rfl | member
      · exact lt
      · exact Std.lt_trans lt (below e member)
    next notLt =>
      split
      next gt =>
        refine List.pairwise_cons.mpr ⟨?_, ih tail⟩
        intro e member
        rcases mem_assignSorted member with rfl | member
        · exact gt
        · exact below e member
      next notGt =>
        have same : first.1 = k := by
          rcases Std.lt_trichotomy first.1 k with h | h | h
          · exact absurd h notGt
          · exact h
          · exact absurd h notLt
        exact List.pairwise_cons.mpr ⟨fun e member => same ▸ below e member, tail⟩

/-- An assignment adds its entry and takes away that of the same key. -/
theorem mem_assignSorted_iff {k : κ} {v : ν} {es : List (κ × ν)}
    (sorted : es.Pairwise (·.1 < ·.1)) (e : κ × ν) :
    e ∈ assignSorted k v es ↔ e = (k, v) ∨ e ∈ es ∧ e.1 ≠ k := by
  induction es with
  | nil => simp [assignSorted]
  | cons first rest ih =>
    obtain ⟨below, tail⟩ := List.pairwise_cons.mp sorted
    unfold assignSorted
    split
    next lt =>
      -- All keys that are there are greater.
      have apart : e ∈ first :: rest → e.1 ≠ k := by
        intro member same
        rcases List.mem_cons.mp member with rfl | member
        · exact Std.lt_irrefl (same ▸ lt)
        · exact Std.lt_irrefl (same ▸ Std.lt_trans lt (below e member))
      rw [List.mem_cons]
      exact or_congr_right ⟨fun member => ⟨member, apart member⟩, And.left⟩
    next notLt =>
      split
      next gt =>
        have apart : e = first → e.1 ≠ k := by
          rintro rfl same
          exact Std.lt_irrefl (same ▸ gt)
        rw [List.mem_cons, ih tail, List.mem_cons]
        constructor
        · rintro (rfl | rfl | ⟨member, other⟩)
          · exact .inr ⟨.inl rfl, apart rfl⟩
          · exact .inl rfl
          · exact .inr ⟨.inr member, other⟩
        · rintro (rfl | ⟨rfl | member, other⟩)
          · exact .inr (.inl rfl)
          · exact .inl rfl
          · exact .inr (.inr ⟨member, other⟩)
      next notGt =>
        have same : first.1 = k := by
          rcases Std.lt_trichotomy first.1 k with h | h | h
          · exact absurd h notGt
          · exact h
          · exact absurd h notLt
        have apart : e ∈ rest → e.1 ≠ k := by
          intro member again
          have greater := below e member
          rw [same, again] at greater
          exact Std.lt_irrefl greater
        rw [List.mem_cons, List.mem_cons]
        constructor
        · rintro (rfl | member)
          · exact .inl rfl
          · exact .inr ⟨.inr member, apart member⟩
        · rintro (rfl | ⟨rfl | member, other⟩)
          · exact .inl rfl
          · exact absurd same other
          · exact .inr member

/-- A map whose entries are in strictly increasing key order. -/
structure SortedMap (κ ν : Type*) [LT κ] where
  entries : List (κ × ν)
  sorted : entries.Pairwise (·.1 < ·.1)

namespace SortedMap

omit [LE κ] [Std.IsLinearOrder κ] [Std.LawfulOrderLT κ] [DecidableLT κ] in
theorem ext_entries {m n : SortedMap κ ν} (same : m.entries = n.entries) : m = n := by
  cases m; cases n; cases same; rfl

instance [DecidableEq κ] [DecidableEq ν] : DecidableEq (SortedMap κ ν) := fun m n =>
  decidable_of_iff (m.entries = n.entries) ⟨ext_entries, fun h => h ▸ rfl⟩

/-- The map without entries. -/
def empty : SortedMap κ ν := ⟨[], List.Pairwise.nil⟩

/-- `m[k] = v`. -/
def assign (m : SortedMap κ ν) (k : κ) (v : ν) : SortedMap κ ν :=
  ⟨assignSorted k v m.entries, assignSorted_sorted k v m.sorted⟩

/-- The assignments, in their order. -/
def assignAll (m : SortedMap κ ν) (es : List (κ × ν)) : SortedMap κ ν :=
  es.foldl (fun m e => m.assign e.1 e.2) m

end SortedMap

/-- The value that the last entry of a list for the key gives it. -/
def LastValue {κ ν : Type*} (es : List (κ × ν)) (k : κ) (v : ν) : Prop :=
  ∃ before after, es = before ++ (k, v) :: after ∧ ∀ e ∈ after, e.1 ≠ k

theorem lastValue_cons {κ ν : Type*} (e : κ × ν) (es : List (κ × ν)) (k : κ) (v : ν) :
    LastValue (e :: es) k v ↔ LastValue es k v ∨ e = (k, v) ∧ ∀ e ∈ es, e.1 ≠ k := by
  constructor
  · rintro ⟨before, after, split, last⟩
    cases before with
    | nil =>
      cases split
      exact .inr ⟨rfl, last⟩
    | cons first before =>
      cases split
      exact .inl ⟨before, after, rfl, last⟩
  · rintro (⟨before, after, rfl, last⟩ | ⟨rfl, last⟩)
    · exact ⟨e :: before, after, rfl, last⟩
    · exact ⟨[], es, rfl, last⟩

theorem LastValue.mem {κ ν : Type*} {es : List (κ × ν)} {k : κ} {v : ν}
    (last : LastValue es k v) : (k, v) ∈ es := by
  obtain ⟨before, after, rfl, _⟩ := last
  simp

theorem lastValue_last {κ ν : Type*} (es : List (κ × ν)) (e : κ × ν) :
    LastValue (es ++ [e]) e.1 e.2 :=
  ⟨es, [], rfl, nofun⟩

/-- Every key that occurs has a last value. -/
theorem exists_lastValue {κ ν : Type*} {es : List (κ × ν)} {k : κ} (occurs : ∃ e ∈ es, e.1 = k) :
    ∃ v, LastValue es k v := by
  induction es with
  | nil =>
    obtain ⟨e, member, _⟩ := occurs
    cases member
  | cons first rest ih =>
    by_cases later : ∃ e ∈ rest, e.1 = k
    · obtain ⟨v, last⟩ := ih later
      exact ⟨v, (lastValue_cons _ _ _ _).mpr (.inl last)⟩
    · obtain ⟨e, member, same⟩ := occurs
      have here : e = first := (List.mem_cons.mp member).resolve_right fun inside =>
        later ⟨e, inside, same⟩
      refine ⟨first.2, (lastValue_cons _ _ _ _).mpr (.inr ⟨?_, fun e inside again => ?_⟩)⟩
      · rw [← same, here]
      · exact later ⟨e, inside, again⟩

namespace SortedMap

/-- What a map holds after some assignments: the last value of each key, and what it held of the
other keys. -/
theorem mem_assignAll (es : List (κ × ν)) (m : SortedMap κ ν) (k : κ) (v : ν) :
    (k, v) ∈ (m.assignAll es).entries ↔
      LastValue es k v ∨ (k, v) ∈ m.entries ∧ ∀ e ∈ es, e.1 ≠ k := by
  induction es generalizing m with
  | nil =>
    have none : ¬LastValue ([] : List (κ × ν)) k v := fun last => List.not_mem_nil last.mem
    simp [assignAll, none]
  | cons e es ih =>
    have held : (k, v) ∈ (m.assign e.1 e.2).entries ↔ e = (k, v) ∨ (k, v) ∈ m.entries ∧ e.1 ≠ k := by
      rw [assign, mem_assignSorted_iff m.sorted, eq_comm, ne_comm]
    change (k, v) ∈ ((m.assign e.1 e.2).assignAll es).entries ↔ _
    rw [ih, held, lastValue_cons, List.forall_mem_cons]
    tauto

theorem mem_assignAll_empty (es : List (κ × ν)) (k : κ) (v : ν) :
    (k, v) ∈ ((empty : SortedMap κ ν).assignAll es).entries ↔ LastValue es k v := by
  rw [mem_assignAll]
  constructor
  · rintro (last | ⟨held, _⟩)
    · exact last
    · cases held
  · exact .inl

omit [DecidableLT κ] [LE κ] [Std.IsLinearOrder κ] [Std.LawfulOrderLT κ] in
/-- The first entry with a key of some kind has the least such key. -/
theorem find_least {m : SortedMap κ ν} {p : κ → Bool} {k : κ} {v : ν}
    (held : (k, v) ∈ m.entries) (kind : p k = true)
    (least : ∀ e ∈ m.entries, p e.1 = true → ¬e.1 < k) :
    m.entries.find? (fun e => p e.1) = some (k, v) := by
  obtain ⟨before, after, split⟩ := List.append_of_mem held
  have sorted := m.sorted
  rw [split] at sorted
  rw [split]
  refine List.find?_eq_some_iff_append.mpr ⟨kind, before, after, rfl, fun e member => ?_⟩
  have below := (List.pairwise_append.mp sorted).2.2 e member (k, v) List.mem_cons_self
  have other : ¬p e.1 = true := fun kind' =>
    least e (by rw [split]; exact List.mem_append_left _ member) kind' below
  simpa using other

end SortedMap

end LightAgent.Library

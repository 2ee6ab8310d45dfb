import Mathlib.Algebra.Group.Int.Defs
import Mathlib.Algebra.GroupWithZero.Nat
import Mathlib.Data.List.Basic
import Mathlib.Data.List.TakeWhile
import Mathlib.Data.Int.Basic
import Mathlib.Tactic.Common

/-!
# Byte strings and machine integers

Strings as lists of bytes, with the searches and cuts a C++ `std::string`
offers, and the narrowing of a size to a 32-bit `int`. Ranges of characters are
taken between two `int` offsets: what lies outside the string is whatever the
memory beside it holds, so such a read is a value and not an error.
-/
namespace LightAgent.Library

abbrev Bytes := List UInt8

/-- The bytes of a text, in UTF-8. -/
def bytes (s : String) : Bytes := s.toUTF8.data.toList

/-- `std::to_string` of an unsigned value. -/
def decimal (n : Nat) : Bytes := bytes (Nat.repr n)

/-- What 32 bits hold of a value, read as an `int`. -/
def narrow (n : Int) : Int := n.bmod (2 ^ 32)

/-- `static_cast<int>` of a size. -/
def toInt (n : Nat) : Int := narrow n

theorem narrow_of_fits {n : Int} (low : -2 ^ 31 ≤ n) (high : n < 2 ^ 31) : narrow n = n := by
  unfold narrow
  rw [Int.bmod_def]
  split <;> omega

theorem toInt_of_lt {n : Nat} (small : n < 2 ^ 31) : toInt n = n :=
  narrow_of_fits (by omega) (by omega)

theorem toInt_nonneg_le {n : Nat} {k : Nat} (bound : (k : Int) ≤ toInt n) : k ≤ n := by
  unfold toInt narrow at bound
  rw [Int.bmod_def] at bound
  split at bound <;> omega

/-- The distance of two places is narrowed like a size, whatever the places have become. -/
theorem narrow_distance (i n : Nat) : narrow (toInt (i + n) - toInt i) = toInt n := by
  unfold toInt narrow
  rw [Int.natCast_add, Int.bmod_sub_bmod, Int.sub_bmod_bmod]
  congr 1
  omega

theorem lt_of_narrow {a b : Int} (order : a ≤ b) (apart : 0 < narrow (b - a)) : a < b := by
  rcases Int.lt_or_eq_of_le order with less | same
  · exact less
  · rw [same, Int.sub_self] at apart
    exact absurd apart (by decide)

/-! ### Searching -/

/-- First position at which `needle` occurs. -/
def find (needle : Bytes) : Bytes → Option Nat
  | [] => if needle = [] then some 0 else none
  | c :: s => if needle.isPrefixOf (c :: s) then some 0 else (find needle s).map (· + 1)

/-- First position from `pos` on at which `needle` occurs. -/
def findFrom (needle s : Bytes) (pos : Nat) : Option Nat :=
  (find needle (s.drop pos)).map (· + pos)

theorem find_byte_cons (c b : UInt8) (s : Bytes) :
    find [c] (b :: s) = if c = b then some 0 else (find [c] s).map (· + 1) := by
  simp [find, List.isPrefixOf]

theorem find_byte_first {c : UInt8} {s : Bytes} (absent : c ∉ s) (t : Bytes) :
    find [c] (s ++ c :: t) = some s.length := by
  induction s with
  | nil => simp [find_byte_cons]
  | cons b s ih =>
    have other : c ≠ b := fun same => absent (same ▸ List.mem_cons_self)
    have later : c ∉ s := fun member => absent (List.mem_cons_of_mem _ member)
    rw [List.cons_append, find_byte_cons, if_neg other, ih later]
    rfl

/-- Where a byte is found it divides the string, and does not occur before. -/
theorem find_byte_split {c : UInt8} {s : Bytes} {i : Nat} (found : find [c] s = some i) :
    ∃ before after, s = before ++ c :: after ∧ c ∉ before ∧ before.length = i := by
  induction s generalizing i with
  | nil => simp [find] at found
  | cons b s ih =>
    rw [find_byte_cons] at found
    split at found
    next same =>
      cases found
      exact ⟨[], s, by rw [same]; rfl, List.not_mem_nil, rfl⟩
    next other =>
      obtain ⟨j, hj, rfl⟩ := Option.map_eq_some_iff.mp found
      obtain ⟨before, after, rfl, absent, rfl⟩ := ih hj
      exact ⟨b :: before, after, rfl, List.not_mem_cons_of_ne_of_not_mem other absent, rfl⟩

/-- A byte found in a string is found at the same place in any extension of it. -/
theorem find_byte_append {c : UInt8} {s : Bytes} {i : Nat} (found : find [c] s = some i)
    (t : Bytes) : find [c] (s ++ t) = some i := by
  obtain ⟨before, after, rfl, absent, rfl⟩ := find_byte_split found
  rw [List.append_assoc]
  exact find_byte_first absent (after ++ t)

theorem find_byte_lt {c : UInt8} {s : Bytes} {i : Nat} (found : find [c] s = some i) :
    i < s.length := by
  obtain ⟨before, after, rfl, _, rfl⟩ := find_byte_split found
  rw [List.length_append]
  exact Nat.lt_add_of_pos_right (Nat.succ_pos _)

theorem findFrom_byte_append {c : UInt8} {s : Bytes} {pos i : Nat}
    (found : findFrom [c] s pos = some i) (t : Bytes) :
    findFrom [c] (s ++ t) pos = some i := by
  unfold findFrom at found ⊢
  obtain ⟨j, hj, rfl⟩ := Option.map_eq_some_iff.mp found
  have inside := find_byte_lt hj
  rw [List.length_drop] at inside
  rw [List.drop_append_of_le_length (by omega), find_byte_append hj, Option.map_some]

theorem findFrom_byte_lt {c : UInt8} {s : Bytes} {pos i : Nat}
    (found : findFrom [c] s pos = some i) : i < s.length := by
  unfold findFrom at found
  obtain ⟨j, hj, rfl⟩ := Option.map_eq_some_iff.mp found
  have inside := find_byte_lt hj
  rw [List.length_drop] at inside
  omega

theorem ne_of_absent {c : UInt8} {s : Bytes} (absent : c ∉ s) :
    ∀ b ∈ s, decide (b ≠ c) = true :=
  fun _ member => decide_eq_true fun same => absent (same ▸ member)

theorem find_byte_takeWhile {c : UInt8} {s : Bytes} {i : Nat} (found : find [c] s = some i) :
    s.takeWhile (· ≠ c) = s.take i := by
  obtain ⟨before, after, rfl, absent, rfl⟩ := find_byte_split found
  rw [List.take_left, List.takeWhile_append_of_pos (ne_of_absent absent),
    List.takeWhile_cons_of_neg (by simp), List.append_nil]

theorem find_byte_dropWhile {c : UInt8} {s : Bytes} {i : Nat} (found : find [c] s = some i) :
    s.dropWhile (· ≠ c) = s.drop i := by
  obtain ⟨before, after, rfl, absent, rfl⟩ := find_byte_split found
  rw [List.drop_left, List.dropWhile_append_of_pos (ne_of_absent absent),
    List.dropWhile_cons_of_neg (by simp)]

theorem find_byte_drop {c : UInt8} {s : Bytes} {i : Nat} (found : find [c] s = some i) :
    s.drop i = c :: s.drop (i + 1) := by
  obtain ⟨before, after, rfl, _, rfl⟩ := find_byte_split found
  rw [List.drop_left, ← List.drop_drop, List.drop_left]
  rfl

theorem find_byte_none {c : UInt8} {s : Bytes} (absent : find [c] s = none) : c ∉ s := by
  induction s with
  | nil => exact List.not_mem_nil
  | cons b s ih =>
    rw [find_byte_cons] at absent
    split at absent
    next => cases absent
    next other =>
      have later := ih (Option.map_eq_none_iff.mp absent)
      exact List.not_mem_cons_of_ne_of_not_mem other later

theorem takeWhile_absent {c : UInt8} {s : Bytes} (absent : c ∉ s) : s.takeWhile (· ≠ c) = s :=
  List.takeWhile_eq_self_iff.mpr (ne_of_absent absent)

theorem dropWhile_absent {c : UInt8} {s : Bytes} (absent : c ∉ s) : s.dropWhile (· ≠ c) = [] :=
  List.dropWhile_eq_nil_iff.mpr (ne_of_absent absent)

/-- Either a byte does not occur in a string, or it divides it where it occurs first. -/
theorem absent_or_split (c : UInt8) (s : Bytes) :
    c ∉ s ∨ ∃ before after, s = before ++ c :: after ∧ c ∉ before := by
  cases found : find [c] s with
  | none => exact .inl (find_byte_none found)
  | some i =>
    obtain ⟨before, after, split, absent, _⟩ := find_byte_split found
    exact .inr ⟨before, after, split, absent⟩

theorem find_byte_absent {c : UInt8} {s : Bytes} (absent : c ∉ s) : find [c] s = none := by
  cases found : find [c] s with
  | none => rfl
  | some i =>
    obtain ⟨before, after, rfl, _⟩ := find_byte_split found
    exact absurd (List.mem_append_right _ List.mem_cons_self) absent

theorem findFrom_byte_first {c : UInt8} {s before after : Bytes} {pos : Nat}
    (split : s.drop pos = before ++ c :: after) (absent : c ∉ before) :
    findFrom [c] s pos = some (before.length + pos) ∧
      s.drop (before.length + pos) = c :: after := by
  constructor
  · unfold findFrom
    rw [split, find_byte_first absent]
    rfl
  · rw [Nat.add_comm, ← List.drop_drop, split, List.drop_left]

theorem findFrom_byte_absent {c : UInt8} {s : Bytes} {pos : Nat} (absent : c ∉ s.drop pos) :
    findFrom [c] s pos = none := by
  unfold findFrom
  rw [find_byte_absent absent]
  rfl

/-- A needle that does not hold `c` does not reach over a `c`. -/
theorem isPrefixOf_append_sep {needle : Bytes} {c : UInt8} (absent : c ∉ needle) (a b : Bytes) :
    needle.isPrefixOf (a ++ c :: b) = needle.isPrefixOf a := by
  induction needle generalizing a with
  | nil => simp [List.isPrefixOf]
  | cons d needle ih =>
    obtain ⟨other, absent⟩ := List.ne_and_not_mem_of_not_mem_cons absent
    cases a with
    | nil => simp [List.isPrefixOf, other.symm]
    | cons x a => simp [List.isPrefixOf, ih absent]

theorem find_append_sep {needle : Bytes} (solid : needle ≠ []) {c : UInt8} (absent : c ∉ needle)
    (a b : Bytes) : find needle (a ++ c :: b) =
      match find needle a with
      | some i => some i
      | none => (find needle b).map (· + (a.length + 1)) := by
  induction a with
  | nil =>
    have other : needle.isPrefixOf (c :: b) = false := by
      rw [← List.nil_append (c :: b), isPrefixOf_append_sep absent]
      cases needle with
      | nil => contradiction
      | cons d needle => rfl
    simp [find, other, solid]
  | cons x a ih =>
    have same := isPrefixOf_append_sep absent (x :: a) b
    rw [List.cons_append] at same
    rw [List.cons_append, find, find, same, ih]
    cases needle.isPrefixOf (x :: a) with
    | true => rfl
    | false =>
      cases find needle a with
      | some i => rfl
      | none =>
        simp only [Bool.false_eq_true, if_false, Option.map_none, Option.map_map, List.length_cons]
        rfl

/-- A needle that begins with a byte is not found before the first such byte. -/
theorem find_append_absent {c : UInt8} {needle a : Bytes} (absent : c ∉ a) (s : Bytes) :
    find (c :: needle) (a ++ s) = (find (c :: needle) s).map (· + a.length) := by
  induction a with
  | nil => simp
  | cons b a ih =>
    obtain ⟨other, absent⟩ := List.ne_and_not_mem_of_not_mem_cons absent
    have later : (c :: needle).isPrefixOf (b :: (a ++ s)) = false := by
      simp [List.isPrefixOf, other]
    rw [List.cons_append, find, later, if_neg Bool.false_ne_true, ih absent, Option.map_map]
    rfl

/-! ### Splitting at a separator -/

theorem splitOn_absent {c : UInt8} {s : Bytes} (absent : c ∉ s) : s.splitOn c = [s] := by
  apply List.splitOnP_eq_singleton
  intro b member
  simpa using fun same : b = c => absent (same ▸ member)

theorem splitOn_append {c : UInt8} {a : Bytes} (absent : c ∉ a) (b : Bytes) :
    (a ++ c :: b).splitOn c = a :: b.splitOn c := by
  apply List.splitOnP_append_cons_of_forall_mem
  · intro b member
    simpa using fun same : b = c => absent (same ▸ member)
  · simp

/-! ### Cutting -/

/-- `std::string::substr` with a length. -/
def substr (s : Bytes) (pos n : Nat) : Bytes := (s.drop pos).take n

/-- The byte at an offset, or what memory holds beside the string. -/
def byteAt (outside : Int → UInt8) (s : Bytes) (i : Int) : UInt8 :=
  if 0 ≤ i ∧ i < s.length then s.getD i.toNat 0 else outside i

/-- The characters between two offsets: `std::string(s.begin() + a, s.begin() + b)`. -/
def charRange (outside : Int → UInt8) (s : Bytes) (a b : Int) : Bytes :=
  (List.range (b - a).toNat).map fun (k : Nat) => byteAt outside s (a + (k : Int))

/-- A range inside the string does not see what follows it. -/
theorem charRange_append (outside : Int → UInt8) {s : Bytes} {a b : Int} (low : 0 ≤ a)
    (high : b ≤ s.length) (t : Bytes) :
    charRange outside (s ++ t) a b = charRange outside s a b := by
  unfold charRange
  apply List.map_congr_left
  intro k member
  rw [List.mem_range] at member
  have below : (a + (k : Int)).toNat < s.length := by omega
  have here : 0 ≤ a + (k : Int) ∧ a + (k : Int) < s.length := by omega
  have there : 0 ≤ a + (k : Int) ∧ a + (k : Int) < (s ++ t).length := by
    rw [List.length_append]; omega
  unfold byteAt
  rw [if_pos here, if_pos there, List.getD_eq_getElem?_getD, List.getD_eq_getElem?_getD,
    List.getElem?_append_left below]

theorem length_charRange (outside : Int → UInt8) (s : Bytes) (a b : Int) :
    (charRange outside s a b).length = (b - a).toNat := by
  simp [charRange]

/-- A range inside the string is a part of it. -/
theorem charRange_inside (outside : Int → UInt8) {s : Bytes} {a n : Nat}
    (high : a + n ≤ s.length) :
    charRange outside s a ((a + n : Nat) : Int) = (s.drop a).take n := by
  apply List.ext_getElem
  · rw [length_charRange, List.length_take, List.length_drop]
    omega
  · intro i here there
    rw [length_charRange] at here
    have inside : 0 ≤ (a : Int) + (i : Int) ∧ (a : Int) + (i : Int) < s.length := by omega
    have place : ((a : Int) + (i : Int)).toNat = a + i := by omega
    simp only [charRange, List.getElem_map, List.getElem_range, List.getElem_take,
      List.getElem_drop]
    unfold byteAt
    rw [if_pos inside, place, List.getD_eq_getElem?_getD, List.getElem?_eq_getElem (by omega)]
    rfl

/-- A range that begins before the string holds a byte of the memory beside it. -/
theorem charRange_before {outside : Int → UInt8} {s : Bytes} {a b : Int} (low : a < 0)
    (nonempty : 0 < b - a) : outside a ∈ charRange outside s a b := by
  unfold charRange
  rw [List.mem_map]
  refine ⟨0, List.mem_range.mpr (by omega), ?_⟩
  unfold byteAt
  rw [if_neg (by omega)]
  simp

/-- What is negative as an `int` is not small. -/
theorem toInt_neg {n : Nat} (low : 2 ^ 31 ≤ n) (high : n < 2 ^ 32) : toInt n < 0 := by
  unfold toInt narrow
  rw [Int.bmod_def]
  split <;> omega

end LightAgent.Library

import LightAgent.Library.Text
import Mathlib.Data.Nat.Digits.Defs

/-!
# Numerals

The decimal numeral of a number digit by digit, and what makes a numeral of an integer canonical:
a minus sign for a negative number only, no zero in front, and the number can be read back.
-/
namespace LightAgent.Library

/-- The byte of a digit. -/
def digitByte (n : Nat) : UInt8 := UInt8.ofNat (48 + n)

theorem digitByte_toNat {n : Nat} (digit : n < 10) : (digitByte n).toNat = 48 + n :=
  UInt8.toNat_ofNat_of_lt (show 48 + n < 256 by omega)

theorem decimal_eq_utf8 (n : Nat) : decimal n = utf8 (Nat.toDigits 10 n) := by
  unfold decimal
  rw [bytes_eq_utf8, Nat.repr_eq_ofList_toDigits, String.toList_ofList]

theorem utf8_digitChar {n : Nat} (digit : n < 10) : utf8 [n.digitChar] = [digitByte n] :=
  (by decide : ∀ n < 10, utf8 [n.digitChar] = [digitByte n]) n digit

theorem decimal_of_lt {n : Nat} (digit : n < 10) : decimal n = [digitByte n] := by
  rw [decimal_eq_utf8, Nat.toDigits_of_lt_base digit, utf8_digitChar digit]

/-- The last digit stands behind the numeral of the others. -/
theorem decimal_append {n k : Nat} (positive : 0 < n) (digit : k < 10) :
    decimal (10 * n + k) = decimal n ++ [digitByte k] := by
  rw [decimal_eq_utf8, ← Nat.toDigits_append_toDigits (by decide) positive digit, utf8_append,
    Nat.toDigits_of_lt_base digit, utf8_digitChar digit, ← decimal_eq_utf8]

theorem decimal_of_le {n : Nat} (large : 10 ≤ n) :
    decimal n = decimal (n / 10) ++ [digitByte (n % 10)] := by
  have last := decimal_append (Nat.div_pos large (by decide)) (Nat.mod_lt n (by decide))
  rwa [Nat.div_add_mod] at last

theorem decimal_ne_nil (n : Nat) : decimal n ≠ [] := by
  by_cases digit : n < 10
  · rw [decimal_of_lt digit]
    simp
  · rw [decimal_of_le (by omega)]
    simp

/-- A numeral has digits only. -/
theorem decimal_digits {n : Nat} {b : UInt8} (member : b ∈ decimal n) : 48 ≤ b ∧ b ≤ 57 := by
  have digit {k : Nat} (small : k < 10) : 48 ≤ digitByte k ∧ digitByte k ≤ 57 := by
    rw [UInt8.le_iff_toNat_le, UInt8.le_iff_toNat_le, digitByte_toNat small]
    exact ⟨Nat.le_add_right 48 k, Nat.add_le_add_left (Nat.le_of_lt_succ small) 48⟩
  induction n using Nat.base_induction 10 (by decide) with
  | single n small =>
    rw [decimal_of_lt small, List.mem_singleton] at member
    rw [member]
    exact digit small
  | digit n k small positive ih =>
    rw [decimal_append positive small, List.mem_append, List.mem_singleton] at member
    rcases member with before | last
    · exact ih before
    · rw [last]
      exact digit small

/-- A zero stands in front of a numeral only where it is the numeral. -/
theorem decimal_head_zero {n : Nat} (zero : (decimal n).head? = some 48) : n = 0 := by
  induction n using Nat.base_induction 10 (by decide) with
  | single n digit =>
    rw [decimal_of_lt digit, List.head?_cons, Option.some.injEq] at zero
    have value := digitByte_toNat digit
    rw [zero] at value
    exact Nat.left_eq_add.mp value
  | digit n k digit positive ih =>
    rw [decimal_append positive digit, List.head?_append_of_ne_nil _ (decimal_ne_nil _)] at zero
    exact absurd (ih zero) (Nat.ne_of_gt positive)

theorem decimal_length_le {n k : Nat} (small : n < 10 ^ (k + 1)) : (decimal n).length ≤ k + 1 := by
  induction k generalizing n with
  | zero =>
    rw [decimal_of_lt small]
    exact Nat.le_refl 1
  | succ k ih =>
    by_cases digit : n < 10
    · rw [decimal_of_lt digit]
      simp
    · rw [decimal_of_le (by omega), List.length_append, List.length_singleton]
      exact Nat.succ_le_succ (ih (Nat.div_lt_of_lt_mul (by rwa [← Nat.pow_succ'])))

/-! ### Integers -/

/-- `std::to_string` of a signed value. -/
def signedDecimal (v : Int) : Bytes := (if v < 0 then [45] else []) ++ decimal v.natAbs

/-- The number that digits denote. -/
def digitsNumber (digits : Bytes) : Nat :=
  Nat.ofDigits 10 (digits.reverse.map fun b => b.toNat - 48)

/-- The number that a numeral denotes. -/
def number (text : Bytes) : Int :=
  if text.head? = some 45 then -digitsNumber text.tail else digitsNumber text

structure Canonical (text : Bytes) (v : Int) : Prop where
  split : ∃ digits, text = (if v < 0 then [45] else []) ++ digits ∧ digits ≠ [] ∧
    (∀ b ∈ digits, 48 ≤ b ∧ b ≤ 57) ∧ (digits.head? = some 48 → digits = [48])
  number : number text = v

theorem digitsNumber_decimal (n : Nat) : digitsNumber (decimal n) = n := by
  unfold digitsNumber
  induction n using Nat.base_induction 10 (by decide) with
  | single n digit => simp [decimal_of_lt digit, digitByte_toNat digit]
  | digit n k digit positive ih =>
    rw [decimal_append positive digit, List.reverse_append, List.reverse_singleton,
      List.singleton_append, List.map_cons, Nat.ofDigits_cons, ih, digitByte_toNat digit]
    omega

theorem decimal_injective {m n : Nat} (same : decimal m = decimal n) : m = n := by
  rw [← digitsNumber_decimal m, same, digitsNumber_decimal]

theorem signedDecimal_canonical (v : Int) : Canonical (signedDecimal v) v := by
  refine ⟨⟨decimal v.natAbs, rfl, decimal_ne_nil _, fun b => decimal_digits, fun zero => ?_⟩, ?_⟩
  · rw [decimal_head_zero zero, decimal_of_lt (by decide)]
    rfl
  · unfold signedDecimal number
    split
    next negative =>
      simp only [List.singleton_append, List.head?_cons, List.tail_cons, if_true,
        digitsNumber_decimal]
      omega
    next =>
      -- The first byte is a digit and so no sign.
      have bare : (decimal v.natAbs).head? ≠ some 45 := fun minus =>
        absurd (decimal_digits (List.mem_of_head? minus)).1 (by decide)
      rw [List.nil_append, if_neg bare, digitsNumber_decimal]
      omega

theorem signedDecimal_length (v : Int) :
    (signedDecimal v).length = (decimal v.natAbs).length + if v < 0 then 1 else 0 := by
  unfold signedDecimal
  split
  · rw [List.singleton_append, List.length_cons]
  · rfl

end LightAgent.Library

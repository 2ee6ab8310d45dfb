import LightAgent.Library.Decimal

/-!
# LogStream: integers as text

`convert` of LogStream.cpp on the memory that starts at its argument. Operations are undefined
where the result is not of the integer type, and reads and writes outside `digits` or the memory.
-/
namespace LightAgent

open Library

/-- The integer types that `formatInteger` is called with. -/
inductive IntType where
  | int
  | unsignedInt
  | long
  | unsignedLong
  | longLong
  | unsignedLongLong
  deriving DecidableEq, Repr

namespace IntType

def min : IntType → Int
  | int => -2 ^ 31
  | long | longLong => -2 ^ 63
  | unsignedInt | unsignedLong | unsignedLongLong => 0

def max : IntType → Int
  | int => 2 ^ 31 - 1
  | unsignedInt => 2 ^ 32 - 1
  | long | longLong => 2 ^ 63 - 1
  | unsignedLong | unsignedLongLong => 2 ^ 64 - 1

def Fits (T : IntType) (v : Int) : Prop := T.min ≤ v ∧ v ≤ T.max

instance (T : IntType) (v : Int) : Decidable (T.Fits v) := inferInstanceAs (Decidable (_ ∧ _))

/-- A value of the type. -/
abbrev Value (T : IntType) := { v : Int // T.Fits v }

theorem Fits.natAbs_lt {T : IntType} {v : Int} (fits : T.Fits v) :
    v.natAbs < 2 ^ 64 ∧ (v < 0 → v.natAbs ≤ 2 ^ 63) := by
  obtain ⟨low, high⟩ := fits
  cases T <;> simp only [min, max] at low high <;> omega

/-- Truncation stays within the type. -/
theorem Fits.of_natAbs_le {T : IntType} {v w : Int} (fits : T.Fits v)
    (smaller : w.natAbs ≤ v.natAbs) (sign : 0 ≤ v → 0 ≤ w) (negative : v ≤ 0 → w ≤ 0) :
    T.Fits w := by
  obtain ⟨low, high⟩ := fits
  unfold Fits
  have zero : T.min ≤ 0 ∧ 0 ≤ T.max := by cases T <;> decide
  omega

end IntType

/-- `const char digits[]` -/
def digits : Bytes := bytes "9876543210123456789"

/-- `zero[lsd]`, with `zero` pointing at `digits + 9` -/
def zeroAt (lsd : Int) : Option UInt8 :=
  if 0 ≤ 9 + lsd then digits[(9 + lsd).toNat]? else none

/-- `*p = c` -/
def poke (memory : Bytes) (p : Nat) (c : UInt8) : Option Bytes :=
  if p < memory.length then some (memory.set p c) else none

theorem tdiv_natAbs (i : Int) : (i.tdiv 10).natAbs = i.natAbs / 10 := Int.natAbs_tdiv i 10

theorem tmod_natAbs (i : Int) : (i.tmod 10).natAbs = i.natAbs % 10 := Int.natAbs_tmod i 10

/-- The loop of `convert`, with `p` counted from `buf` -/
def convertFrom (T : IntType) (buf : Bytes) (p : Nat) (i : Int) : Option (Bytes × Nat) :=
  if T.Fits (i.tmod 10) ∧ T.Fits (i.tdiv 10) then
    let lsd := (i.tmod 10).bmod (2 ^ 32)
    match (zeroAt lsd).bind (poke buf p) with
    | some buf =>
      if i.tdiv 10 ≠ 0 then convertFrom T buf (p + 1) (i.tdiv 10) else some (buf, p + 1)
    | none => none
  else none
termination_by i.natAbs
decreasing_by
  have quotient := tdiv_natAbs i
  omega

/-- `convert`: the memory it leaves and the length it returns -/
def convert {T : IntType} (buf : Bytes) (value : T.Value) : Option (Bytes × Nat) := do
  let (buf, p) ← convertFrom T buf 0 value
  let (buf, p) ← if value.val < 0 then (poke buf p 45).map (·, p + 1) else some (buf, p)
  let buf ← poke buf p 0
  -- `std::reverse(buf, p)`
  some ((buf.take p).reverse ++ buf.drop p, p)

/-! ### The loop -/

theorem zeroAt_eq {lsd : Int} (digit : lsd.natAbs < 10) :
    zeroAt lsd = some (digitByte lsd.natAbs) := by
  have table : ∀ k < 10, zeroAt (k : Nat) = some (digitByte k) ∧
      zeroAt (-(k : Nat)) = some (digitByte k) := by decide
  rcases Int.natAbs_eq lsd with positive | negative
  · rw [positive, Int.natAbs_natCast]
    exact (table _ digit).1
  · rw [negative, Int.natAbs_neg, Int.natAbs_natCast]
    exact (table _ digit).2

theorem poke_append (before : Bytes) (old c : UInt8) (rest : Bytes) :
    poke (before ++ old :: rest) before.length c = some (before ++ c :: rest) := by
  unfold poke
  rw [if_pos (by simp), List.set_append_right _ _ (Nat.le_refl _), Nat.sub_self]
  rfl

/-- Quotient and remainder are values of the type. -/
theorem IntType.Fits.divides {T : IntType} {i : Int} (fits : T.Fits i) :
    T.Fits (i.tmod 10) ∧ T.Fits (i.tdiv 10) := by
  have quotient := tdiv_natAbs i
  have remainder := tmod_natAbs i
  constructor
  · refine fits.of_natAbs_le (by omega) (fun positive => Int.tmod_nonneg 10 positive) fun negative => ?_
    have opposite := Int.tmod_nonneg 10 (Int.neg_nonneg_of_nonpos negative)
    rw [Int.neg_tmod] at opposite
    omega
  · refine fits.of_natAbs_le (by omega) (fun positive => Int.tdiv_nonneg positive (by decide))
      fun negative => ?_
    have opposite := Int.tdiv_nonneg (Int.neg_nonneg_of_nonpos negative) (by decide : (0 : Int) ≤ 10)
    rw [Int.neg_tdiv] at opposite
    omega

/-- The digits come from the last one on, and nothing behind them is touched. -/
theorem convertFrom_eq {T : IntType} {i : Int} (fits : T.Fits i) (before : Bytes) {room : Bytes}
    (enough : (decimal i.natAbs).length ≤ room.length) :
    convertFrom T (before ++ room) before.length i =
      some (before ++ ((decimal i.natAbs).reverse ++ room.drop (decimal i.natAbs).length),
        before.length + (decimal i.natAbs).length) := by
  induction size : i.natAbs using Nat.strong_induction_on generalizing i before room with
  | _ n ih =>
    subst size
    have quotient := tdiv_natAbs i
    have remainder := tmod_natAbs i
    have cast : (i.tmod 10).bmod (2 ^ 32) = i.tmod 10 :=
      Int.bmod_eq_of_le (by omega) (by omega)
    obtain ⟨old, rest, rfl⟩ : ∃ old rest, room = old :: rest := by
      apply List.exists_cons_of_ne_nil
      rintro rfl
      exact decimal_ne_nil _ (List.length_eq_zero_iff.mp (Nat.le_zero.mp enough))
    rw [convertFrom, if_pos fits.divides]
    dsimp only
    rw [cast, zeroAt_eq (by omega), Option.bind_some, poke_append, remainder]
    dsimp only
    split
    -- The digits that remain are written behind this one.
    next more =>
      have large : 10 ≤ i.natAbs := by omega
      rw [decimal_of_le large] at enough ⊢
      rw [List.length_append, List.length_singleton, List.length_cons, ← quotient] at enough
      have later := ih _ (by omega) fits.divides.2 (before ++ [digitByte (i.natAbs % 10)])
        (Nat.le_of_succ_le_succ enough) rfl
      rw [List.length_append, List.length_singleton, List.append_assoc, List.singleton_append] at later
      rw [later, quotient]
      refine congrArg some (Prod.ext ?_ ?_)
      · simp
      · simp only [List.length_append, List.length_singleton]
        omega
    next last =>
      have digit : i.natAbs < 10 := by omega
      rw [decimal_of_lt digit, Nat.mod_eq_of_lt digit]
      simp

/-- The end of `convert`, once what stands before `p` is the numeral backwards. -/
theorem convert_end {text rest : Bytes} (old : UInt8) :
    ((poke (text.reverse ++ old :: rest) text.length 0).bind fun buf =>
      some ((buf.take text.length).reverse ++ buf.drop text.length, text.length)) =
      some (text ++ 0 :: rest, text.length) := by
  have write := poke_append text.reverse old 0 rest
  rw [List.length_reverse] at write
  rw [write, Option.bind_some, List.take_left' List.length_reverse, List.drop_left' List.length_reverse,
    List.reverse_reverse]

/-- `convert` leaves the numeral with a NUL behind it, and the rest of the memory as it is. -/
theorem convert_eq {T : IntType} (value : T.Value) {buf : Bytes}
    (enough : (signedDecimal value).length < buf.length) :
    convert buf value = some (signedDecimal value ++ 0 :: buf.drop ((signedDecimal value).length + 1),
      (signedDecimal value).length) := by
  rw [signedDecimal_length] at enough
  have loop := @convertFrom_eq T value value.property [] buf (by omega)
  have sign := @poke_append (decimal value.val.natAbs).reverse
  rw [List.length_reverse] at sign
  rw [List.nil_append, List.length_nil, Nat.zero_add, List.nil_append] at loop
  unfold convert signedDecimal
  rw [loop]
  simp only [Option.bind_eq_bind, Option.bind_some]
  split
  -- The sign is written behind the digits, and comes to the front with them.
  next negative =>
    rw [if_pos negative] at enough
    rw [List.drop_eq_getElem_cons (by omega), List.drop_eq_getElem_cons (by omega), sign]
    have last := @convert_end (45 :: decimal value.val.natAbs)
      (buf.drop ((decimal value.val.natAbs).length + 1 + 1))
      (buf[(decimal value.val.natAbs).length + 1])
    rw [List.reverse_cons, List.append_assoc, List.singleton_append, List.length_cons] at last
    simpa using last
  next positive =>
    rw [if_neg positive] at enough
    rw [List.drop_eq_getElem_cons (by omega), List.nil_append]
    exact convert_end _

/-- A numeral of these types has at most 20 bytes. -/
theorem signedDecimal_le {T : IntType} (value : T.Value) : (signedDecimal value).length ≤ 20 := by
  obtain ⟨bound, negative⟩ := value.property.natAbs_lt
  rw [signedDecimal_length]
  split
  next minus =>
    have short : (decimal value.val.natAbs).length ≤ 18 + 1 :=
      decimal_length_le (Nat.lt_of_le_of_lt (negative minus) (by decide))
    omega
  next =>
    have short : (decimal value.val.natAbs).length ≤ 19 + 1 :=
      decimal_length_le (Nat.lt_trans bound (by decide))
    omega

end LightAgent

import LightAgent.Library.Bytes

/-!
# Texts as bytes

Characters in UTF-8 and as UTF-16 code units. A byte below 0x80 of a text is a character of it.
-/
namespace LightAgent.Library

def utf8 (cs : List Char) : Bytes := cs.flatMap String.utf8EncodeChar

def utf16Char (c : Char) : List Nat :=
  if c.toNat < 0x10000 then [c.toNat]
  else [0xD800 + (c.toNat - 0x10000) / 0x400, 0xDC00 + (c.toNat - 0x10000) % 0x400]

def utf16 (cs : List Char) : List Nat := cs.flatMap utf16Char

/-- The string is well-formed UTF-8. -/
def IsUtf8 (b : Bytes) : Prop := ∃ cs, b = utf8 cs

@[simp] theorem utf8_nil : utf8 [] = [] := rfl

@[simp] theorem utf8_cons (c : Char) (cs : List Char) :
    utf8 (c :: cs) = String.utf8EncodeChar c ++ utf8 cs := rfl

@[simp] theorem utf8_append (cs ds : List Char) : utf8 (cs ++ ds) = utf8 cs ++ utf8 ds := by
  simp [utf8]

@[simp] theorem utf16_nil : utf16 [] = [] := rfl

@[simp] theorem utf16_cons (c : Char) (cs : List Char) :
    utf16 (c :: cs) = utf16Char c ++ utf16 cs := rfl

theorem bytes_eq_utf8 (s : String) : bytes s = utf8 s.toList := by
  have encoded : s.toByteArray = s.toList.utf8Encode := by
    rw [← String.toByteArray_ofList, String.ofList_toList]
  unfold bytes utf8
  rw [String.toUTF8_eq_toByteArray, encoded]
  simp [List.utf8Encode]

theorem utf8EncodeChar_ascii {c : Char} (ascii : c.toNat < 0x80) :
    String.utf8EncodeChar c = [UInt8.ofNat c.toNat] := by
  unfold String.utf8EncodeChar
  exact if_pos (Nat.lt_succ_iff.mp ascii)

/-- A character beyond ASCII has no byte in common with it. -/
theorem utf8EncodeChar_high {c : Char} (high : 0x80 ≤ c.toNat) :
    ∀ b ∈ String.utf8EncodeChar c, 0x80 ≤ b.toNat := by
  -- The first byte of such a character and those behind it have a base of at least 0x80.
  have big (n k : Nat) (low : 0x80 ≤ k) (few : n + k < 0x100) :
      0x80 ≤ (UInt8.ofNat (n + k)).toNat := by
    have value : (UInt8.ofNat (n + k)).toNat = n + k := UInt8.toNat_ofNat_of_lt few
    omega
  have value : c.val.toNat = c.toNat := rfl
  intro b member
  simp only [String.utf8EncodeChar] at member
  repeat' split at member
  next small => omega
  all_goals
    simp only [List.mem_cons, List.not_mem_nil, or_false] at member
    rcases member with rfl | rfl | rfl | rfl
    all_goals exact big _ _ (by decide) (by omega)

/-- An ASCII byte of a text is one of its characters. -/
theorem exists_char_of_ascii {b : UInt8} {cs : List Char} (ascii : b.toNat < 0x80)
    (member : b ∈ utf8 cs) : ∃ c ∈ cs, c.toNat = b.toNat := by
  obtain ⟨c, char, encoded⟩ := List.mem_flatMap.mp member
  refine ⟨c, char, ?_⟩
  by_cases low : c.toNat < 0x80
  · rw [utf8EncodeChar_ascii low, List.mem_singleton] at encoded
    have value : (UInt8.ofNat c.toNat).toNat = c.toNat :=
      UInt8.toNat_ofNat_of_lt (Nat.lt_trans low (by decide))
    rw [encoded, value]
  · have := utf8EncodeChar_high (Nat.not_lt.mp low) b encoded
    omega

end LightAgent.Library

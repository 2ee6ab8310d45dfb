import LightAgent.Library.Text
import Mathlib.Data.List.Basic

/-!
# JSON documents

The grammar of RFC 8259 over characters, with what a text stands for, and documents as the UTF-8
bytes of such texts. A string stands for UTF-16 code units, which is what its escapes name; a
number stands for its own digits.
-/
namespace LightAgent.Library.Json

/-! ### Strings -/

/-- A character that stands for itself in a string. -/
def Unescaped (c : Char) : Prop := 0x20 ≤ c.toNat ∧ c ≠ '"' ∧ c ≠ '\\'

instance (c : Char) : Decidable (Unescaped c) := inferInstanceAs (Decidable (_ ∧ _))

/-- The letters behind a reverse solidus, with the units they stand for. -/
def escapes : List (Char × Nat) :=
  [('"', 0x22), ('\\', 0x5C), ('/', 0x2F), ('b', 0x08), ('f', 0x0C), ('n', 0x0A), ('r', 0x0D),
    ('t', 0x09)]

def hexValue (c : Char) : Option Nat :=
  if '0' ≤ c ∧ c ≤ '9' then some (c.toNat - 0x30)
  else if 'a' ≤ c ∧ c ≤ 'f' then some (c.toNat - 0x61 + 10)
  else if 'A' ≤ c ∧ c ≤ 'F' then some (c.toNat - 0x41 + 10)
  else none

/-- What stands between the quotation marks, with the units it stands for. -/
inductive Chars : List Char → List Nat → Prop
  | nil : Chars [] []
  | plain {c : Char} {cs : List Char} {units : List Nat} : Unescaped c → Chars cs units →
      Chars (c :: cs) (utf16Char c ++ units)
  | escape {e : Char} {unit : Nat} {cs : List Char} {units : List Nat} : (e, unit) ∈ escapes →
      Chars cs units → Chars ('\\' :: e :: cs) (unit :: units)
  | hex {digits cs : List Char} {values units : List Nat} : digits.length = 4 →
      digits.mapM hexValue = some values → Chars cs units →
      Chars ('\\' :: 'u' :: (digits ++ cs)) (values.foldl (16 * · + ·) 0 :: units)

def quoted (cs : List Char) : List Char := '"' :: (cs ++ ['"'])

/-! ### Numbers -/

def Digits (cs : List Char) : Prop := cs ≠ [] ∧ ∀ c ∈ cs, c.isDigit = true

/-- `int`: no digit in front of others is a zero. -/
def IsInt (cs : List Char) : Prop := Digits cs ∧ (cs.head? = some '0' → cs = ['0'])

/-- `frac`, which may be left out -/
def IsFrac (cs : List Char) : Prop := cs = [] ∨ ∃ ds, cs = '.' :: ds ∧ Digits ds

/-- `exp`, which may be left out -/
def IsExp (cs : List Char) : Prop :=
  cs = [] ∨ ∃ e ∈ ['e', 'E'], ∃ sign ∈ [[], ['+'], ['-']], ∃ ds, cs = e :: (sign ++ ds) ∧ Digits ds

def IsNumber (cs : List Char) : Prop :=
  ∃ minus ∈ [[], ['-']], ∃ int frac exp, IsInt int ∧ IsFrac frac ∧ IsExp exp ∧
    cs = minus ++ (int ++ (frac ++ exp))

/-! ### Values -/

/-- What a text stands for. -/
inductive Value where
  | null
  | bool (b : Bool)
  | number (text : List Char)
  | string (units : List Nat)
  | array (elements : List Value)
  | object (members : List (List Nat × Value))

/-- White space around a token. -/
def Blank (cs : List Char) : Prop := ∀ c ∈ cs, c ∈ [' ', '\t', '\n', '\r']

/-- What a part of a text stands for: a value, or what is between brackets. -/
inductive Node where
  | value (v : Value)
  | elements (elements : List Value)
  | members (members : List (List Nat × Value))

inductive Derives : Node → List Char → Prop
  | null : Derives (.value .null) "null".toList
  | true : Derives (.value (.bool true)) "true".toList
  | false : Derives (.value (.bool false)) "false".toList
  | number {cs : List Char} : IsNumber cs → Derives (.value (.number cs)) cs
  | string {cs : List Char} {units : List Nat} : Chars cs units →
      Derives (.value (.string units)) (quoted cs)
  | emptyArray {blank : List Char} : Blank blank →
      Derives (.value (.array [])) ('[' :: (blank ++ [']']))
  | array {vs : List Value} {cs : List Char} : Derives (.elements vs) cs →
      Derives (.value (.array vs)) ('[' :: (cs ++ [']']))
  | emptyObject {blank : List Char} : Blank blank →
      Derives (.value (.object [])) ('{' :: (blank ++ ['}']))
  | object {ms : List (List Nat × Value)} {cs : List Char} : Derives (.members ms) cs →
      Derives (.value (.object ms)) ('{' :: (cs ++ ['}']))
  | element {v : Value} {cs before after : List Char} : Blank before → Blank after →
      Derives (.value v) cs → Derives (.elements [v]) (before ++ (cs ++ after))
  | elements {v : Value} {vs : List Value} {cs ds before after : List Char} : Blank before →
      Blank after → Derives (.value v) cs → Derives (.elements vs) ds →
      Derives (.elements (v :: vs)) (before ++ (cs ++ (after ++ ',' :: ds)))
  | member {name : List Nat} {v : Value} {ns cs before gap gap' after : List Char} : Blank before →
      Blank gap → Blank gap' → Blank after → Chars ns name → Derives (.value v) cs →
      Derives (.members [(name, v)])
        (before ++ (quoted ns ++ (gap ++ ':' :: (gap' ++ (cs ++ after)))))
  | members {name : List Nat} {v : Value} {ms : List (List Nat × Value)}
      {ns cs ds before gap gap' after : List Char} : Blank before → Blank gap → Blank gap' →
      Blank after → Chars ns name → Derives (.value v) cs → Derives (.members ms) ds →
      Derives (.members ((name, v) :: ms))
        (before ++ (quoted ns ++ (gap ++ ':' :: (gap' ++ (cs ++ (after ++ ',' :: ds))))))

/-- The bytes are a JSON document that stands for the value. -/
def IsDocument (b : Bytes) (v : Value) : Prop :=
  ∃ before cs after, Blank before ∧ Blank after ∧ Derives (.value v) cs ∧
    b = utf8 (before ++ (cs ++ after))

/-! ### What no text contains -/

theorem hexValue_printable {c : Char} {value : Nat} (hex : hexValue c = some value) :
    0x20 ≤ c.toNat := by
  have below (d : Char) (from_ : d ≤ c) (printable : 0x20 ≤ d.toNat) : 0x20 ≤ c.toNat :=
    Nat.le_trans printable from_
  -- Each of the three ranges begins above the control characters.
  unfold hexValue at hex
  split at hex
  next digit => exact below '0' digit.1 (by decide)
  next =>
    split at hex
    next lower => exact below 'a' lower.1 (by decide)
    next =>
      split at hex
      next upper => exact below 'A' upper.1 (by decide)
      next => cases hex

theorem hexValues_printable {cs : List Char} {values : List Nat}
    (hex : cs.mapM hexValue = some values) : ∀ c ∈ cs, 0x20 ≤ c.toNat := by
  induction cs generalizing values with
  | nil => simp
  | cons d cs ih =>
    simp only [List.mapM_cons, Option.pure_def, Option.bind_eq_bind, Option.bind_eq_some_iff] at hex
    obtain ⟨value, first, rest, others, _⟩ := hex
    intro c member
    rcases List.mem_cons.mp member with rfl | later
    · exact hexValue_printable first
    · exact ih others c later

/-- No control character stands in a string. -/
theorem Chars.printable {cs : List Char} {units : List Nat} (chars : Chars cs units) :
    ∀ c ∈ cs, 0x20 ≤ c.toNat := by
  induction chars with
  | nil => simp
  | plain self _ ih => exact List.forall_mem_cons.mpr ⟨self.1, ih⟩
  | escape letter _ ih =>
    have listed : ∀ e ∈ escapes, 0x20 ≤ e.1.toNat := by decide
    simp only [List.forall_mem_cons]
    exact ⟨by decide, listed _ letter, ih⟩
  -- The unit may be a control character, its digits are none.
  | hex _ values _ ih =>
    simp only [List.forall_mem_cons, List.forall_mem_append]
    exact ⟨by decide, by decide, hexValues_printable values, ih⟩

/-- Not a control character, or one that is white space. -/
def Printable (c : Char) : Prop := 0x20 ≤ c.toNat ∨ c ∈ ['\t', '\n', '\r']

instance (c : Char) : Decidable (Printable c) := inferInstanceAs (Decidable (_ ∨ _))

theorem Blank.printable {cs : List Char} (blank : Blank cs) : ∀ c ∈ cs, Printable c := by
  have listed : ∀ c ∈ [' ', '\t', '\n', '\r'], Printable c := by simp [Printable]
  exact fun c member => listed c (blank c member)

theorem quoted_printable {cs : List Char} {units : List Nat} (chars : Chars cs units) :
    ∀ c ∈ quoted cs, Printable c := by
  simp only [quoted, List.forall_mem_cons, List.forall_mem_append]
  exact ⟨by decide, fun c member => .inl (chars.printable c member), by decide, by simp⟩

theorem Digits.printable {cs : List Char} (digits : Digits cs) : ∀ c ∈ cs, Printable c := by
  intro c member
  have digit := (Char.isDigit_iff_toNat.mp (digits.2 c member)).1
  exact .inl (Nat.le_trans (by decide) digit)

theorem IsNumber.printable {cs : List Char} (number : IsNumber cs) : ∀ c ∈ cs, Printable c := by
  obtain ⟨minus, minus_, int, frac, exp, ⟨int_, _⟩, frac_, exp_, rfl⟩ := number
  have minuses : ∀ minus ∈ [[], ['-']], ∀ c ∈ minus, Printable c := by simp [Printable]
  have signs : ∀ sign ∈ [[], ['+'], ['-']], ∀ c ∈ sign, Printable c := by simp [Printable]
  have letters : ∀ e ∈ ['e', 'E'], Printable e := by simp [Printable]
  simp only [List.forall_mem_append]
  refine ⟨minuses minus minus_, int_.printable, ?_, ?_⟩
  · rcases frac_ with rfl | ⟨digits, rfl, digits_⟩
    · simp
    · exact List.forall_mem_cons.mpr ⟨by decide, digits_.printable⟩
  · rcases exp_ with rfl | ⟨e, e_, sign, sign_, digits, rfl, digits_⟩
    · simp
    · simp only [List.forall_mem_cons, List.forall_mem_append]
      exact ⟨letters e e_, signs sign sign_, digits_.printable⟩

theorem Derives.printable {node : Node} {cs : List Char} (derives : Derives node cs) :
    ∀ c ∈ cs, Printable c := by
  induction derives with
  | null => simp [Printable]
  | true => simp [Printable]
  | false => simp [Printable]
  | number number => exact number.printable
  | string chars => exact quoted_printable chars
  -- Only white space may hold control characters, and it is printable by definition.
  | emptyArray blank | emptyObject blank =>
    simp only [List.forall_mem_cons, List.forall_mem_append]
    exact ⟨by decide, blank.printable, by decide, by simp⟩
  | array _ ih | object _ ih =>
    simp only [List.forall_mem_cons, List.forall_mem_append]
    exact ⟨by decide, ih, by decide, by simp⟩
  | element before after _ ih =>
    simp only [List.forall_mem_append]
    exact ⟨before.printable, ih, after.printable⟩
  | elements before after _ _ ih rest =>
    simp only [List.forall_mem_cons, List.forall_mem_append]
    exact ⟨before.printable, ih, after.printable, by decide, rest⟩
  | member before gap gap' after name _ ih =>
    simp only [List.forall_mem_cons, List.forall_mem_append]
    exact ⟨before.printable, quoted_printable name, gap.printable, by decide, gap'.printable, ih,
      after.printable⟩
  | members before gap gap' after name _ _ ih rest =>
    simp only [List.forall_mem_cons, List.forall_mem_append]
    exact ⟨before.printable, quoted_printable name, gap.printable, by decide, gap'.printable, ih,
      after.printable, by decide, rest⟩

/-- A byte below 0x20 of a document is white space. -/
theorem IsDocument.no_control {b : Bytes} {v : Value} (document : IsDocument b v) :
    ∀ x ∈ b, x.toNat < 0x20 → x ∈ [9, 10, 13] := by
  obtain ⟨before, cs, after, before_, after_, derives, rfl⟩ := document
  intro x member low
  obtain ⟨c, char, same⟩ := exists_char_of_ascii (Nat.lt_trans low (by decide)) member
  have all : ∀ c ∈ before ++ (cs ++ after), Printable c := by
    simp only [List.forall_mem_append]
    exact ⟨before_.printable, derives.printable, after_.printable⟩
  -- A byte below 0x20 is a character of the text, and the text has only these.
  rcases all c char with high | white
  · omega
  · have listed : ∀ c ∈ ['\t', '\n', '\r'], UInt8.ofNat c.toNat ∈ [(9 : UInt8), 10, 13] := by simp
    have byte : UInt8.ofNat c.toNat = x := by rw [same]; exact UInt8.ofNat_toNat
    exact byte ▸ listed c white

/-! ### Texts that are written without white space -/

theorem chars_of_unescaped {cs : List Char} (plain : cs.all (Unescaped ·) = true) :
    Chars cs (utf16 cs) := by
  induction cs with
  | nil => exact .nil
  | cons c cs ih =>
    simp only [List.all_cons, Bool.and_eq_true, decide_eq_true_eq] at plain
    exact .plain plain.1 (ih plain.2)

theorem blank_nil : Blank [] := by simp [Blank]

/-- The members of an object, given by their names and by the texts of their values. -/
def membersText : List (List Char × List Char) → List Char
  | [] => []
  | [(name, text)] => quoted name ++ ':' :: text
  | (name, text) :: texts => quoted name ++ ':' :: (text ++ ',' :: membersText texts)

/-- What the texts of a member stand for. -/
def MemberText (texts : List Char × List Char) (member : List Nat × Value) : Prop :=
  Chars texts.1 member.1 ∧ Derives (.value member.2) texts.2

theorem derives_members {texts : List (List Char × List Char)} {ms : List (List Nat × Value)}
    (some : texts ≠ []) (written : List.Forall₂ MemberText texts ms) :
    Derives (.members ms) (membersText texts) := by
  induction written with
  | nil => exact absurd rfl some
  | @cons texts member rest ms first written ih =>
    obtain ⟨name, text⟩ := texts
    obtain ⟨units, v⟩ := member
    -- The last member has no comma behind it.
    cases rest with
    | nil =>
      cases written
      simpa [membersText] using Derives.member blank_nil blank_nil blank_nil blank_nil first.1 first.2
    | cons second rest =>
      have later := ih (List.cons_ne_nil _ _)
      simpa [membersText] using
        Derives.members blank_nil blank_nil blank_nil blank_nil first.1 first.2 later

/-- An object that is written without white space. -/
theorem isDocument_object {texts : List (List Char × List Char)} {ms : List (List Nat × Value)}
    (some : texts ≠ []) (written : List.Forall₂ MemberText texts ms) :
    IsDocument (utf8 ('{' :: (membersText texts ++ ['}']))) (.object ms) :=
  ⟨[], _, [], blank_nil, blank_nil, .object (derives_members some written), by simp⟩

end LightAgent.Library.Json

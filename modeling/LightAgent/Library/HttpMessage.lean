import LightAgent.Library.Decimal

/-!
# Messages that end where they say

A response is a status line, header lines and a blank line, and then a body. No line contains
a CR or LF, so a byte string is a head and a body in at most one way, and where the head
announces its length the body can be told from what follows it.
-/
namespace LightAgent.Library

/-- Neither CR nor LF. -/
def Unbroken (l : Bytes) : Prop := 13 ∉ l ∧ 10 ∉ l

instance (l : Bytes) : Decidable (Unbroken l) := inferInstanceAs (Decidable (_ ∧ _))

theorem Unbroken.append {l l' : Bytes} (first : Unbroken l) (second : Unbroken l') :
    Unbroken (l ++ l') :=
  ⟨List.not_mem_append first.1 second.1, List.not_mem_append first.2 second.2⟩

theorem decimal_unbroken (n : Nat) : Unbroken (decimal n) :=
  ⟨fun member => absurd (decimal_digits member).1 (by decide),
    fun member => absurd (decimal_digits member).1 (by decide)⟩

theorem unique_cut {c : UInt8} {s s' t t' : Bytes} (absent : c ∉ s) (absent' : c ∉ s')
    (same : s ++ c :: t = s' ++ c :: t') : s = s' ∧ t = t' := by
  have found := find_byte_first absent t
  rw [same, find_byte_first absent' t'] at found
  exact List.append_inj same (Option.some.inj found).symm |>.imp id (List.cons.inj · |>.2)

def statusLine (code : Nat) (reason : Bytes) : Bytes :=
  bytes "HTTP/1.1 " ++ decimal code ++ bytes " " ++ reason

def headerLine (name value : Bytes) : Bytes := name ++ bytes ": " ++ value

/-- A header line that can be told apart from others. -/
structure Field where
  name : Bytes
  value : Bytes
  unbroken : Unbroken name ∧ Unbroken value
  named : name ≠ [] ∧ 58 ∉ name
  deriving DecidableEq

/-- A status line and header lines. -/
structure Head where
  code : Nat
  reason : Bytes
  fields : List Field
  unbroken : Unbroken reason
  deriving DecidableEq

def Field.line (field : Field) : Bytes := headerLine field.name field.value

theorem Field.line_unbroken (field : Field) : Unbroken field.line :=
  (field.unbroken.1.append (by decide)).append field.unbroken.2

theorem Field.line_eq (field : Field) : field.line = field.name ++ 58 :: 32 :: field.value := by
  have colon : bytes ": " = [58, 32] := by decide
  unfold Field.line headerLine
  rw [colon, List.append_assoc]
  rfl

theorem Field.line_inj {field field' : Field} (same : field.line = field'.line) :
    field = field' := by
  rw [field.line_eq, field'.line_eq] at same
  obtain ⟨name, rest⟩ := unique_cut field.named.2 field'.named.2 same
  obtain ⟨_, value⟩ := List.cons.inj rest
  cases field
  cases field'
  cases name
  cases value
  rfl

namespace Head

/-- The head as it is sent: its lines with their ends, and the blank line. -/
def text (head : Head) : Bytes :=
  statusLine head.code head.reason ++ 13 :: 10 ::
    ((head.fields.flatMap fun field => field.line ++ [13, 10]) ++ [13, 10])

theorem status_unbroken (head : Head) : Unbroken (statusLine head.code head.reason) :=
  (((by decide : Unbroken (bytes "HTTP/1.1 ")).append (decimal_unbroken _)).append
    (by decide)).append head.unbroken

theorem fields_unique {fields fields' : List Field} {body body' : Bytes}
    (same : (fields.flatMap fun field => field.line ++ [13, 10]) ++ 13 :: 10 :: body =
      (fields'.flatMap fun field => field.line ++ [13, 10]) ++ 13 :: 10 :: body') :
    fields = fields' ∧ body = body' := by
  -- A field line does not begin with CR, and the blank line does.
  have starts (field : Field) (rest rest' : Bytes) : field.line ++ rest ≠ 13 :: rest' := by
    intro same
    rw [field.line_eq] at same
    cases name : field.name with
    | nil => exact field.named.1 name
    | cons b bs =>
      rw [name] at same
      cases same
      exact field.unbroken.1.1 (name ▸ List.mem_cons_self)
  induction fields generalizing fields' with
  | nil =>
    cases fields' with
    | nil => simpa using same
    | cons field' fields' =>
      simp only [List.flatMap_nil, List.nil_append, List.flatMap_cons, List.append_assoc] at same
      exact absurd same.symm (starts _ _ _)
  | cons field fields ih =>
    cases fields' with
    | nil =>
      simp only [List.flatMap_nil, List.nil_append, List.flatMap_cons, List.append_assoc] at same
      exact absurd same (starts _ _ _)
    | cons field' fields' =>
      simp only [List.flatMap_cons, List.append_assoc, List.cons_append, List.nil_append] at same
      obtain ⟨line, rest⟩ := unique_cut field.line_unbroken.1 field'.line_unbroken.1 same
      obtain ⟨_, rest⟩ := List.cons.inj rest
      obtain ⟨tail, bodies⟩ := ih rest
      exact ⟨by rw [Field.line_inj line, tail], bodies⟩

/-- A message is a head and a body in at most one way. -/
theorem text_unique {head head' : Head} {body body' : Bytes}
    (same : head.text ++ body = head'.text ++ body') :
    head.fields = head'.fields ∧ body = body' := by
  unfold text at same
  simp only [List.append_assoc, List.cons_append, List.nil_append] at same
  obtain ⟨_, rest⟩ := unique_cut head.status_unbroken.1 head'.status_unbroken.1 same
  exact fields_unique (List.cons.inj rest).2

/-- The values of the fields with a name. -/
def values (head : Head) (named : Bytes → Bool) : List Bytes :=
  (head.fields.filter fun field => named field.name).map Field.value

end Head

/-- The message is a head and the body its head announces, or the head alone where there is to
be no body. -/
def SelfDelimiting (isLength : Bytes → Bool) (bodiless : Bool) (message : Bytes) : Prop :=
  ∃ (head : Head) (body : Bytes), message = head.text ++ body ∧
    if bodiless then body = [] else head.values isLength = [decimal body.length]

theorem Head.text_start (head : Head) : bytes "HTTP/1.1 " <+: head.text := by
  unfold Head.text statusLine
  simp only [List.append_assoc]
  exact List.prefix_append _ _

/-- A known head decides whether the message is self-delimiting. -/
theorem selfDelimiting_iff (isLength : Bytes → Bool) (bodiless : Bool) (head : Head)
    (body : Bytes) : SelfDelimiting isLength bodiless (head.text ++ body) ↔
      if bodiless then body = [] else head.values isLength = [decimal body.length] := by
  constructor
  · rintro ⟨head', body', same, ends⟩
    obtain ⟨fields, rfl⟩ := Head.text_unique same
    unfold Head.values at ends ⊢
    rwa [fields]
  · exact fun ends => ⟨head, body, rfl, ends⟩

/-- The messages have the same head. -/
def SameHead (message message' : Bytes) : Prop :=
  ∃ (head : Head) (body body' : Bytes), message = head.text ++ body ∧ message' = head.text ++ body'

/-- Messages with the same head begin with the same version and digit of the status code. -/
theorem SameHead.start {message message' : Bytes} (same : SameHead message message') :
    message.take 10 = message'.take 10 := by
  obtain ⟨head, body, body', rfl, rfl⟩ := same
  have version : (bytes "HTTP/1.1 ").length = 9 := by decide
  have blank : (bytes " ").length = 1 := by decide
  have long : 10 ≤ head.text.length := by
    simp only [Head.text, statusLine, List.length_append, version, blank]
    omega
  rw [List.take_append_of_le_length long, List.take_append_of_le_length long]

end LightAgent.Library

import LightAgent.Library.HttpMessage

/-!
# Reading messages back

What a client makes of a stream of messages. It takes the lines of a head up to the blank one,
finds the one length that they announce, and takes that many bytes for the body. It knows for
which of its requests there is no body.
-/
namespace LightAgent.Library

/-- What a client gets to know of a message. -/
structure Message where
  code : Nat
  fields : List (Bytes × Bytes)
  body : Bytes
  deriving DecidableEq, Repr

/-- The lines up to the blank one; `line` is what has been read of the first. -/
def readLines (line : Bytes) : Bytes → Option (List Bytes × Bytes)
  | 13 :: 10 :: s =>
    if line = [] then some ([], s)
    else (readLines [] s).map fun read => (line :: read.1, read.2)
  | b :: s => readLines (line ++ [b]) s
  | [] => none

def readStatus (line : Bytes) : Option Nat :=
  if (bytes "HTTP/1.1 ").isPrefixOf line then
    some (digitsNumber ((line.drop 9).takeWhile (· ≠ 32)))
  else none

/-- The name, and the value behind the colon and the blank. -/
def readField (line : Bytes) : Option (Bytes × Bytes) :=
  if 58 ∈ line then some (line.takeWhile (· ≠ 58), (line.dropWhile (· ≠ 58)).drop 2) else none

/-- The body, where a length is announced and it is there. -/
def readBody (isLength : Bytes → Bool) (bodiless : Bool) (fields : List (Bytes × Bytes))
    (s : Bytes) : Option (Bytes × Bytes) :=
  if bodiless then some ([], s)
  else match fields.filter fun field => isLength field.1 with
    | [(_, length)] =>
      if digitsNumber length ≤ s.length then
        some (s.take (digitsNumber length), s.drop (digitsNumber length))
      else none
    | _ => none

def readMessage (isLength : Bytes → Bool) (bodiless : Bool) (s : Bytes) :
    Option (Message × Bytes) := do
  let (lines, s) ← readLines [] s
  let code ← readStatus (← lines.head?)
  let fields ← lines.tail.mapM readField
  let (body, s) ← readBody isLength bodiless fields s
  return (⟨code, fields, body⟩, s)

/-- The messages that answer so many requests. -/
def readMessages (isLength : Bytes → Bool) : List Bool → Bytes → Option (List Message × Bytes)
  | [], s => some ([], s)
  | bodiless :: requests, s => do
    let (message, s) ← readMessage isLength bodiless s
    let (messages, s) ← readMessages isLength requests s
    return (message :: messages, s)

/-! ### Lines -/

theorem readLines_line {l : Bytes} (unbroken : Unbroken l) (line s : Bytes) :
    readLines line (l ++ 13 :: 10 :: s) =
      if line ++ l = [] then some ([], s)
      else (readLines [] s).map fun read => ((line ++ l) :: read.1, read.2) := by
  induction l generalizing line with
  | nil =>
    rw [List.append_nil, List.nil_append]
    rfl
  | cons b l ih =>
    have other : b ≠ 13 := fun same => unbroken.1 (same ▸ List.mem_cons_self)
    have rest : Unbroken l := ⟨fun member => unbroken.1 (List.mem_cons_of_mem _ member),
      fun member => unbroken.2 (List.mem_cons_of_mem _ member)⟩
    have goesOn (t : Bytes) : readLines line (b :: t) = readLines (line ++ [b]) t := by
      rw [readLines]
      rintro _ same
      exact absurd same other
    rw [List.cons_append, goesOn, ih rest, List.append_assoc, List.singleton_append]

/-- The lines of a head, the blank line and what is behind. -/
theorem readLines_lines {lines : List Bytes} (unbroken : ∀ l ∈ lines, Unbroken l ∧ l ≠ [])
    (s : Bytes) :
    readLines [] ((lines.flatMap fun l => l ++ [13, 10]) ++ 13 :: 10 :: s) = some (lines, s) := by
  induction lines with
  | nil => rfl
  | cons l lines ih =>
    obtain ⟨whole, some⟩ := unbroken l List.mem_cons_self
    have later := ih fun l member => unbroken l (List.mem_cons_of_mem _ member)
    rw [List.flatMap_cons, List.append_assoc, List.append_assoc, List.cons_append,
      List.cons_append, List.nil_append, readLines_line whole, List.nil_append, if_neg some, later]
    rfl

theorem readStatus_statusLine (head : Head) :
    readStatus (statusLine head.code head.reason) = some head.code := by
  have version : (bytes "HTTP/1.1 ").length = 9 := by decide
  have blank : bytes " " = [32] := by decide
  have absent : 32 ∉ decimal head.code := fun member =>
    absurd (decimal_digits member).1 (by decide)
  have starts : (bytes "HTTP/1.1 ").isPrefixOf (statusLine head.code head.reason) = true := by
    unfold statusLine
    rw [List.isPrefixOf_iff_prefix, List.append_assoc, List.append_assoc]
    exact List.prefix_append _ _
  unfold readStatus
  rw [if_pos starts]
  unfold statusLine
  rw [List.append_assoc, List.append_assoc, ← version, List.drop_left, blank,
    List.singleton_append, List.takeWhile_append_of_pos (ne_of_absent absent),
    List.takeWhile_cons_of_neg (by decide), List.append_nil, digitsNumber_decimal]

theorem readField_line (field : Field) : readField field.line = some (field.name, field.value) := by
  have colon : (58 : UInt8) ∈ field.line := by
    rw [field.line_eq]
    exact List.mem_append_right _ List.mem_cons_self
  have apart := ne_of_absent field.named.2
  unfold readField
  rw [if_pos colon, field.line_eq, List.takeWhile_append_of_pos apart,
    List.dropWhile_append_of_pos apart, List.takeWhile_cons_of_neg (by decide),
    List.dropWhile_cons_of_neg (by decide), List.append_nil]
  rfl

theorem readFields_lines (fields : List Field) : (fields.map Field.line).mapM readField =
    some (fields.map fun field => (field.name, field.value)) := by
  induction fields with
  | nil => rfl
  | cons field fields ih =>
    rw [List.map_cons, List.mapM_cons, readField_line, ih]
    rfl

/-! ### Messages -/

/-- The body of a message is the one its head announces, or there is none to be. -/
def Head.Ends (head : Head) (isLength : Bytes → Bool) (bodiless : Bool) (body : Bytes) : Prop :=
  if bodiless then body = [] else head.values isLength = [decimal body.length]

def Head.message (head : Head) (body : Bytes) : Message :=
  ⟨head.code, head.fields.map fun field => (field.name, field.value), body⟩

theorem Head.lines_text (head : Head) (s : Bytes) :
    readLines [] (head.text ++ s) =
      some (statusLine head.code head.reason :: head.fields.map Field.line, s) := by
  have text : head.text ++ s = ((statusLine head.code head.reason ::
      head.fields.map Field.line).flatMap fun l => l ++ [13, 10]) ++ 13 :: 10 :: s := by
    simp [Head.text, List.flatMap_map]
  rw [text]
  refine readLines_lines (fun l member => ?_) s
  rcases List.mem_cons.mp member with rfl | member
  · refine ⟨head.status_unbroken, ?_⟩
    have version : bytes "HTTP/1.1 " ≠ [] := by decide
    simp [statusLine, version]
  · obtain ⟨field, _, rfl⟩ := List.mem_map.mp member
    refine ⟨field.line_unbroken, ?_⟩
    rw [field.line_eq]
    simp

theorem readBody_values {head : Head} {isLength : Bytes → Bool} {bodiless : Bool} {body : Bytes}
    (ends : head.Ends isLength bodiless body) (s : Bytes) :
    readBody isLength bodiless (head.fields.map fun field => (field.name, field.value))
      (body ++ s) = some (body, s) := by
  unfold Head.Ends at ends
  unfold readBody
  cases bodiless with
  | true =>
    rw [if_pos rfl] at ends ⊢
    rw [ends, List.nil_append]
  | false =>
    rw [if_neg Bool.false_ne_true] at ends ⊢
    have announced : (head.fields.map fun field => (field.name, field.value)).filter
        (fun field => isLength field.1) =
          (head.fields.filter fun field => isLength field.name).map
            fun field => (field.name, field.value) := by
      rw [List.filter_map]
      rfl
    unfold Head.values at ends
    obtain ⟨field, only, value⟩ := List.map_eq_singleton_iff.mp ends
    rw [announced, only, List.map_singleton]
    dsimp only
    rw [value, digitsNumber_decimal, if_pos (by simp), List.take_left, List.drop_left]

/-- A message is read back, and what is behind it is left. -/
theorem readMessage_text {head : Head} {isLength : Bytes → Bool} {bodiless : Bool} {body : Bytes}
    (ends : head.Ends isLength bodiless body) (s : Bytes) :
    readMessage isLength bodiless (head.text ++ (body ++ s)) = some (head.message body, s) := by
  unfold readMessage
  rw [head.lines_text]
  simp only [Option.bind_eq_bind, Option.bind_some, List.head?_cons, List.tail_cons,
    readStatus_statusLine, readFields_lines, readBody_values ends]
  rfl

/-- So is a stream of messages, each for the request in its place. -/
theorem readMessages_texts {isLength : Bytes → Bool} {requests : List Bool}
    {messages : List (Head × Bytes)}
    (ends : List.Forall₂ (fun bodiless message => message.1.Ends isLength bodiless message.2)
      requests messages) (s : Bytes) :
    readMessages isLength requests ((messages.flatMap fun message =>
      message.1.text ++ message.2) ++ s) =
        some (messages.map fun message => message.1.message message.2, s) := by
  induction ends with
  | nil => rfl
  | @cons bodiless message requests messages first _ ih =>
    rw [List.flatMap_cons, List.append_assoc, List.append_assoc, readMessages,
      readMessage_text first]
    simp only [Option.bind_eq_bind, Option.bind_some, ih]
    rfl

end LightAgent.Library

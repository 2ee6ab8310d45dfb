import Mathlib.Data.List.Basic
import Mathlib.Data.List.TakeWhile
import Mathlib.Tactic.Common

/-!
# Escaped strings, and objects made of them

A string is written between two of its closing symbols. The symbols that could not stand there
themselves are written as a mark with a letter behind it, all others are copied. A reader that
begins behind the first closing symbol finds the end of the string whatever comes after it; so
does one that reads the members of an object, whose names and values are such strings.
-/
namespace LightAgent.Library

/-- How strings are escaped. What is a letter behind the mark tells the symbol, and neither the
mark nor the closing symbol is copied. -/
structure Escaping (α : Type*) where
  mark : α
  close : α
  /-- The letter for a symbol that is not copied. -/
  letter : α → Option α
  /-- The symbol that a letter stands for. -/
  symbol : α → Option α
  symbol_letter : ∀ a c, letter a = some c → symbol c = some a
  mark_escaped : letter mark ≠ none
  close_escaped : letter close ≠ none
  mark_ne_close : mark ≠ close

namespace Escaping

variable {α : Type*} (e : Escaping α)

def escapeOne (a : α) : List α :=
  match e.letter a with
  | some c => [e.mark, c]
  | none => [a]

def escape (s : List α) : List α := s.flatMap e.escapeOne

/-- A string between its two ends. -/
def quoted (s : List α) : List α := e.close :: (e.escape s ++ [e.close])

variable [DecidableEq α]

/-- The symbol that stands first in a string, where it is written as two. -/
def twoRead (a c : α) : Option α := if a = e.mark then e.symbol c else none

/-- Behind the first end of a string: what the string is, and what comes after its other end.
A mark with no letter behind it is copied. -/
def read : List α → Option (List α × List α)
  | [] => none
  | [a] => if a = e.close then some ([], []) else none
  | a :: c :: text =>
    if a = e.close then some ([], c :: text)
    else
      match e.twoRead a c with
      | some b => (read text).map (Prod.map (b :: ·) id)
      | none => (read (c :: text)).map (Prod.map (a :: ·) id)

variable {e}

omit [DecidableEq α] in
theorem escape_cons (a : α) (s : List α) : e.escape (a :: s) = e.escapeOne a ++ e.escape s := rfl

omit [DecidableEq α] in
theorem escapeOne_letter {a c : α} (written : e.letter a = some c) :
    e.escapeOne a = [e.mark, c] := by
  rw [escapeOne, written]

omit [DecidableEq α] in
theorem escapeOne_copied {a : α} (copied : e.letter a = none) : e.escapeOne a = [a] := by
  rw [escapeOne, copied]

theorem read_close (t : List α) : e.read (e.close :: t) = some ([], t) := by
  cases t with
  | nil => simp [read]
  | cons c t => simp [read]

theorem read_letter {b c : α} (means : e.symbol c = some b) (t : List α) :
    e.read (e.mark :: c :: t) = (e.read t).map (Prod.map (b :: ·) id) := by
  have two : e.twoRead e.mark c = some b := by simp [twoRead, means]
  rw [read, if_neg e.mark_ne_close, two]

theorem read_copied {a : α} (copied : e.letter a = none) (t : List α) :
    e.read (a :: t) = (e.read t).map (Prod.map (a :: ·) id) := by
  -- The mark and the end of the string are not copied.
  have close : a ≠ e.close := fun same => e.close_escaped (same ▸ copied)
  have mark : a ≠ e.mark := fun same => e.mark_escaped (same ▸ copied)
  cases t with
  | nil => simp [read, close]
  | cons c t =>
    have one : e.twoRead a c = none := if_neg mark
    rw [read, if_neg close, one]

/-- An escaped string is read up to its own end, whatever stands behind it. -/
theorem read_escape (s t : List α) : e.read (e.escape s ++ e.close :: t) = some (s, t) := by
  induction s with
  | nil => exact read_close t
  | cons a s ih =>
    rw [escape_cons, List.append_assoc]
    cases written : e.letter a with
    | some c =>
      have means := e.symbol_letter a c written
      rw [escapeOne_letter written, List.cons_append, List.singleton_append, read_letter means, ih]
      rfl
    | none =>
      rw [escapeOne_copied written, List.singleton_append, read_copied written, ih]
      rfl

end Escaping

/-! ### Objects -/

/-- The symbols that stand between the strings of an object. -/
structure Punctuation (α : Type*) extends Escaping α where
  opening : α
  colon : α
  comma : α
  ending : α
  comma_ne_ending : comma ≠ ending

/-- A value is a string, or it is written as it is. -/
inductive MemberValue (α : Type*) where
  | string (s : List α)
  | bare (text : List α)
  deriving DecidableEq, Repr

/-- A name and its value. -/
abbrev Member (α : Type*) := List α × MemberValue α

namespace Punctuation

variable {α : Type*} (p : Punctuation α)

/-- What is written as it is neither begins a string nor ends a member. -/
def Writable : MemberValue α → Prop
  | .string _ => True
  | .bare text => text ≠ [] ∧ ∀ a ∈ text, a ≠ p.close ∧ a ≠ p.comma ∧ a ≠ p.ending

def valueText : MemberValue α → List α
  | .string s => p.quoted s
  | .bare text => text

def memberText (member : Member α) : List α :=
  p.quoted member.1 ++ p.colon :: p.valueText member.2

def membersText : List (Member α) → List α
  | [] => []
  | [member] => p.memberText member
  | member :: members => p.memberText member ++ p.comma :: membersText members

def objectText (members : List (Member α)) : List α :=
  p.opening :: (p.membersText members ++ [p.ending])

theorem membersText_cons (member second : Member α) (members : List (Member α)) :
    p.membersText (member :: second :: members) =
      p.memberText member ++ p.comma :: p.membersText (second :: members) := rfl

theorem length_membersText (members : List (Member α)) :
    members.length ≤ (p.membersText members).length := by
  induction members with
  | nil => exact Nat.le_refl _
  | cons member members ih =>
    cases members with
    | nil => simp [membersText, memberText, Escaping.quoted]
    | cons second members =>
      rw [membersText_cons, List.length_append]
      simp only [List.length_cons] at ih ⊢
      omega

variable [DecidableEq α]

instance : DecidablePred p.Writable
  | .string _ => inferInstanceAs (Decidable True)
  | .bare text =>
    inferInstanceAs (Decidable (text ≠ [] ∧ ∀ a ∈ text, a ≠ p.close ∧ a ≠ p.comma ∧ a ≠ p.ending))

/-- What comes behind a symbol that has to stand first. -/
def expect (a : α) : List α → Option (List α)
  | [] => none
  | b :: text => if b = a then some text else none

/-- The symbols of a value that is no string. -/
def inValue (a : α) : Bool := a ≠ p.comma && a ≠ p.ending

def readValue : List α → Option (MemberValue α × List α)
  | [] => none
  | a :: text =>
    if a = p.close then (p.read text).map (Prod.map .string id)
    else some (.bare ((a :: text).takeWhile p.inValue), (a :: text).dropWhile p.inValue)

def readMember (text : List α) : Option (Member α × List α) := do
  let text ← expect p.close text
  let (name, text) ← p.read text
  let text ← expect p.colon text
  let (value, text) ← p.readValue text
  return ((name, value), text)

/-- The members up to the end of the object, at most `n` of them. -/
def readMembers : Nat → List α → Option (List (Member α) × List α)
  | 0, _ => none
  | n + 1, text => do
    let (member, text) ← p.readMember text
    match text with
    | [] => none
    | a :: text =>
      if a = p.ending then return ([member], text)
      else if a = p.comma then
        let (members, text) ← readMembers n text
        return (member :: members, text)
      else none

/-- The members of a text that is an object and nothing else. -/
def readObject (text : List α) : Option (List (Member α)) := do
  let text ← expect p.opening text
  let (members, text) ← p.readMembers text.length text
  if text = [] then return members else none

variable {p}

theorem expect_self (a : α) (t : List α) : expect a (a :: t) = some t := if_pos rfl

theorem readValue_valueText {value : MemberValue α} (writable : p.Writable value) {b : α}
    (ends : b = p.comma ∨ b = p.ending) (t : List α) :
    p.readValue (p.valueText value ++ b :: t) = some (value, b :: t) := by
  cases value with
  | string s =>
    have text : p.valueText (.string s) ++ b :: t =
        p.close :: (p.escape s ++ p.close :: (b :: t)) := by
      simp [valueText, Escaping.quoted]
    rw [text, readValue, if_pos rfl, Escaping.read_escape]
    rfl
  | bare text =>
    obtain ⟨some, plain⟩ := writable
    have inside : ∀ a ∈ text, p.inValue a = true := by
      intro a member
      obtain ⟨_, comma, ending⟩ := plain a member
      simp [inValue, comma, ending]
    have outside : p.inValue b = false := by
      rcases ends with rfl | rfl
      · simp [inValue]
      · simp [inValue]
    obtain ⟨a, rest, rfl⟩ := List.exists_cons_of_ne_nil some
    have first : a ≠ p.close := (plain a List.mem_cons_self).1
    have taken : (a :: rest ++ b :: t).takeWhile p.inValue = a :: rest := by
      rw [List.takeWhile_append_of_pos inside, List.takeWhile_cons_of_neg (by simp [outside]),
        List.append_nil]
    have left : (a :: rest ++ b :: t).dropWhile p.inValue = b :: t := by
      rw [List.dropWhile_append_of_pos inside, List.dropWhile_cons_of_neg (by simp [outside])]
    change p.readValue (a :: (rest ++ b :: t)) = _
    rw [readValue, if_neg first, ← List.cons_append, taken, left]

theorem readMember_memberText {member : Member α} (writable : p.Writable member.2) {b : α}
    (ends : b = p.comma ∨ b = p.ending) (t : List α) :
    p.readMember (p.memberText member ++ b :: t) = some (member, b :: t) := by
  have text : p.memberText member ++ b :: t = p.close :: (p.escape member.1 ++
      p.close :: (p.colon :: (p.valueText member.2 ++ b :: t))) := by
    simp [memberText, Escaping.quoted]
  rw [text]
  simp [readMember, expect_self, Escaping.read_escape, readValue_valueText writable ends]

/-- The reader finds the members that were written, each with its own value. -/
theorem readMembers_membersText {members : List (Member α)} (any : members ≠ [])
    (writable : ∀ member ∈ members, p.Writable member.2) {n : Nat} (enough : members.length ≤ n)
    (t : List α) :
    p.readMembers n (p.membersText members ++ p.ending :: t) = some (members, t) := by
  induction members generalizing n with
  | nil => exact absurd rfl any
  | cons member members ih =>
    obtain ⟨first, rest⟩ := List.forall_mem_cons.mp writable
    cases n with
    | zero => cases enough
    | succ n =>
      -- The last member has the end of the object behind it, the others a comma.
      cases members with
      | nil =>
        rw [membersText, readMembers, readMember_memberText first (.inr rfl)]
        simp
      | cons second members =>
        have later := ih (List.cons_ne_nil _ _) rest (Nat.le_of_succ_le_succ enough)
        rw [membersText_cons, List.append_assoc, List.cons_append, readMembers,
          readMember_memberText first (.inl rfl)]
        simp [p.comma_ne_ending, later]

/-- An object is read as the members it was written for. -/
theorem readObject_objectText {members : List (Member α)} (any : members ≠ [])
    (writable : ∀ member ∈ members, p.Writable member.2) :
    p.readObject (p.objectText members) = some members := by
  have enough : members.length ≤ (p.membersText members ++ [p.ending]).length := by
    rw [List.length_append]
    exact Nat.le_trans (p.length_membersText members) (Nat.le_add_right _ _)
  have found := readMembers_membersText any writable enough []
  simp only [readObject, objectText, expect_self, Option.bind_eq_bind, Option.bind_some]
  rw [found]
  rfl

end Punctuation

end LightAgent.Library

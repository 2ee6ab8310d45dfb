import LightAgent.HttpData.HandleRead

/-!
# The length that a request declares

`getContentLength` leaves the reading of the number to `stoi`, which passes over blanks and a
sign and stops at the first byte that is no digit. A length is strict where that cannot be told
from reading the value as a whole.
-/
namespace LightAgent

open Library

/-! ### What stoi reads -/

/-- Digits behind blanks and perhaps a sign, up to the first byte that is no digit. -/
structure Numeral (value sign digits : Bytes) : Prop where
  split : ∃ blanks rest, value = blanks ++ (sign ++ (digits ++ rest)) ∧
    (∀ b ∈ blanks, isspace b = true) ∧ ∀ b ∈ rest.head?, isdigit b = false
  sign : sign = [] ∨ sign = [43] ∨ sign = [45]
  digits : digits ≠ [] ∧ ∀ b ∈ digits, isdigit b = true

/-- The number that digits denote behind a sign. -/
def signedValue (sign digits : Bytes) : Int :=
  if sign = [45] then -(digitsValue digits) else digitsValue digits

theorem not_isspace_of_isdigit {b : UInt8} (digit : isdigit b = true) : isspace b = false := by
  have low : 48 ≤ b := by
    unfold isdigit at digit
    simp only [Bool.and_eq_true, decide_eq_true_eq] at digit
    exact digit.1
  have blank : b ≠ 32 := by
    rintro rfl
    exact absurd low (by decide)
  have high : ¬b ≤ 13 := fun small => absurd (UInt8.le_trans low small) (by decide)
  unfold isspace
  simp [blank, high]

theorem takeWhile_until {p : UInt8 → Bool} {inside rest : Bytes} (all : ∀ b ∈ inside, p b = true)
    (ends : ∀ b ∈ rest.head?, p b = false) : (inside ++ rest).takeWhile p = inside := by
  rw [List.takeWhile_append_of_pos all]
  cases rest with
  | nil => simp
  | cons b rest => rw [List.takeWhile_cons_of_neg (by simp [ends b rfl]), List.append_nil]

theorem dropWhile_until {p : UInt8 → Bool} {inside rest : Bytes} (all : ∀ b ∈ inside, p b = true)
    (ends : ∀ b ∈ rest.head?, p b = false) : (inside ++ rest).dropWhile p = rest := by
  rw [List.dropWhile_append_of_pos all]
  cases rest with
  | nil => rfl
  | cons b rest => exact List.dropWhile_cons_of_neg (by simp [ends b rfl])

/-- A run that is cut off ends at a byte that does not belong to it. -/
theorem head_dropWhile (p : UInt8 → Bool) (s : Bytes) :
    ∀ b ∈ (s.dropWhile p).head?, p b = false := by
  intro b first
  have refused := List.head?_dropWhile_not p s
  rw [Option.mem_def.mp first] at refused
  exact refused

/-- The end of `stoi`: the number must be there and fit an `int`. -/
def stoiResult (digits : Bytes) (n : Int) : Option Int :=
  if digits = [] then none
  else if -(2 ^ 31) ≤ n ∧ n < 2 ^ 31 then some n
  else none

/-- `stoi` behind the blanks, one case a sign. -/
def stoiSigned : Bytes → Option Int
  | [] => none
  | c :: s =>
    let sign := if c = 45 ∨ c = 43 then [c] else []
    let digits := (if c = 45 ∨ c = 43 then s else c :: s).takeWhile isdigit
    stoiResult digits (signedValue sign digits)

theorem stoi_eq (value : Bytes) : stoi value = stoiSigned (value.dropWhile isspace) := by
  unfold stoi stoiSigned stoiResult signedValue
  cases value.dropWhile isspace with
  | nil => rfl
  | cons c s =>
    simp only [List.head?_cons, Option.some.injEq, List.drop_succ_cons, List.drop_zero]
    by_cases minus : c = 45
    · simp [minus]
    by_cases plus : c = 43
    · simp [plus]
    · simp [minus, plus]

theorem stoiResult_eq_some {digits : Bytes} {m n : Int} : stoiResult digits m = some n ↔
    digits ≠ [] ∧ m = n ∧ -(2 ^ 31) ≤ n ∧ n < 2 ^ 31 := by
  unfold stoiResult
  by_cases empty : digits = []
  · simp [empty]
  rw [if_neg empty]
  by_cases fits : -(2 ^ 31) ≤ m ∧ m < 2 ^ 31
  · rw [if_pos fits, Option.some.injEq]
    constructor
    · rintro rfl
      exact ⟨empty, rfl, fits⟩
    · rintro ⟨_, rfl, _⟩
      rfl
  · rw [if_neg fits]
    constructor
    · intro none
      cases none
    · rintro ⟨_, rfl, inside⟩
      exact absurd inside fits

/-- What stands behind the blanks is a sign, or none, and the text that the digits are taken of. -/
theorem stoiSigned_split (c : UInt8) (s : Bytes) :
    ∃ sign text, c :: s = sign ++ text ∧ (sign = [] ∨ sign = [43] ∨ sign = [45]) ∧
      stoiSigned (c :: s) =
        stoiResult (text.takeWhile isdigit) (signedValue sign (text.takeWhile isdigit)) := by
  by_cases signed : c = 45 ∨ c = 43
  · refine ⟨[c], s, rfl, ?_, by simp only [stoiSigned, if_pos signed]⟩
    rcases signed with rfl | rfl
    · exact .inr (.inr rfl)
    · exact .inr (.inl rfl)
  · exact ⟨[], c :: s, rfl, .inl rfl, by simp only [stoiSigned, if_neg signed]⟩

theorem stoiSigned_numeral {sign digits rest : Bytes}
    (signed : sign = [] ∨ sign = [43] ∨ sign = [45]) (some : digits ≠ [])
    (all : ∀ b ∈ digits, isdigit b = true) (ends : ∀ b ∈ rest.head?, isdigit b = false) :
    stoiSigned (sign ++ (digits ++ rest)) = stoiResult digits (signedValue sign digits) := by
  have taken := takeWhile_until all ends
  rcases signed with rfl | rfl | rfl
  · obtain ⟨d, tail, rfl⟩ := List.exists_cons_of_ne_nil some
    -- A digit is not a sign.
    have bare : ¬(d = 45 ∨ d = 43) := by
      have digit := all d List.mem_cons_self
      rintro (rfl | rfl) <;> cases digit
    rw [List.cons_append] at taken
    simp only [List.nil_append, List.cons_append, stoiSigned, if_neg bare, taken]
  · simp only [List.singleton_append, stoiSigned, or_true, if_true, taken]
  · simp only [List.singleton_append, stoiSigned, true_or, if_true, taken]

/-- `stoi` gives the number that a numeral at the front of the text denotes, where an `int`
holds it. -/
theorem stoi_eq_some_iff {value : Bytes} {n : Int} : stoi value = some n ↔
    ∃ sign digits, Numeral value sign digits ∧ signedValue sign digits = n ∧
      -(2 ^ 31) ≤ n ∧ n < 2 ^ 31 := by
  rw [stoi_eq]
  constructor
  · intro read
    have whole := List.takeWhile_append_dropWhile (p := isspace) (l := value)
    cases text : value.dropWhile isspace with
    | nil =>
      rw [text] at read
      cases read
    | cons c s =>
      obtain ⟨sign, tail, split, signed, result⟩ := stoiSigned_split c s
      rw [text, result] at read
      obtain ⟨some, denotes, fits⟩ := stoiResult_eq_some.mp read
      have numeral : Numeral value sign (tail.takeWhile isdigit) := by
        refine ⟨⟨value.takeWhile isspace, tail.dropWhile isdigit, ?_, ?_, ?_⟩, signed, some, ?_⟩
        · rw [List.takeWhile_append_dropWhile, ← split, ← text, whole]
        · exact fun b => List.mem_takeWhile_imp
        · exact head_dropWhile isdigit tail
        · exact fun b => List.mem_takeWhile_imp
      exact ⟨sign, tail.takeWhile isdigit, numeral, denotes, fits⟩
  · rintro ⟨sign, digits, ⟨⟨blanks, rest, rfl, all, ends⟩, signed, some, run⟩, denotes, fits⟩
    have starts : ∀ b ∈ (sign ++ (digits ++ rest)).head?, isspace b = false := by
      intro b first
      obtain ⟨d, tail, rfl⟩ := List.exists_cons_of_ne_nil some
      rcases signed with rfl | rfl | rfl
      · cases first
        exact not_isspace_of_isdigit (run _ List.mem_cons_self)
      · cases first
        rfl
      · cases first
        rfl
    rw [dropWhile_until all starts, stoiSigned_numeral signed some run ends]
    exact stoiResult_eq_some.mpr ⟨some, denotes, fits⟩

/-! ### The length of the body -/

/-- A text of decimal digits, and the number it denotes if an `int` holds it. -/
def Denotes (value : Bytes) (n : Nat) : Prop :=
  value ≠ [] ∧ (∀ b ∈ value, isdigit b = true) ∧ digitsValue value = n ∧ n ≤ 2147483647

/-- The length is the number that the whole value denotes, and a value that denotes none is
answered with 400. -/
def StrictLength (s : Conn) (value : Bytes) : Prop :=
  (∀ n, s.http.getContentLength = some n ↔ Denotes value n) ∧
  ((∀ n, ¬Denotes value n) → s.http.getContentLength = none ∧
    (s.http.state_ = .recvBody → recvBodyStage s =
      badRequest s (bytes "Bad Request: Lack of argument (Content-length)")))

theorem lookup_of_only {headers : HeaderMap} {name key value : Bytes}
    (only : headers.entries.filter (fun e => toLowerCopy e.1 = name) = [(key, value)]) :
    HeaderMap.lookup headers name = some value := by
  unfold HeaderMap.lookup
  rw [← List.head?_filter, only]
  rfl

theorem getContentLength_eq_some_iff {h : HttpData} {value : Bytes}
    (found : HeaderMap.lookup h.headers_ (bytes "content-length") = some value) {n : Nat} :
    h.getContentLength = some n ↔ ∃ sign digits, Numeral value sign digits ∧
      signedValue sign digits = n ∧ n ≤ 2147483647 := by
  have read : h.getContentLength = some n ↔ stoi value = some (n : Int) := by
    unfold HttpData.getContentLength
    rw [found]
    dsimp only
    cases stoi value with
    | none => simp
    | some length =>
      dsimp only
      split
      next negative =>
        simp only [Option.some.injEq, reduceCtorEq, false_iff]
        omega
      next =>
        simp only [Option.some.injEq]
        omega
  rw [read, stoi_eq_some_iff]
  constructor
  · rintro ⟨sign, digits, numeral, denotes, _, high⟩
    exact ⟨sign, digits, numeral, denotes, by omega⟩
  · rintro ⟨sign, digits, numeral, denotes, high⟩
    exact ⟨sign, digits, numeral, denotes, by omega, by omega⟩

/-- A value of digits is a numeral without blanks and sign. -/
theorem Denotes.numeral {value : Bytes} {n : Nat} (denotes : Denotes value n) :
    Numeral value [] value where
  split := ⟨[], [], by simp, nofun, nofun⟩
  sign := .inl rfl
  digits := ⟨denotes.1, denotes.2.1⟩

/-- The digits of a numeral that has nothing but digits are the whole of it. -/
theorem Numeral.whole {value sign digits : Bytes} (numeral : Numeral value sign digits)
    (all : ∀ b ∈ value, isdigit b = true) : value = digits := by
  obtain ⟨⟨blanks, rest, rfl, spaces, ends⟩, signed, _, _⟩ := numeral
  have blank : blanks = [] := by
    refine List.eq_nil_iff_forall_not_mem.mpr fun b member => ?_
    have space := spaces b member
    rw [not_isspace_of_isdigit (all b (by simp [member]))] at space
    cases space
  have unsigned : sign = [] := by
    rcases signed with rfl | rfl | rfl
    · rfl
    · cases all 43 (by simp)
    · cases all 45 (by simp)
  have ended : rest = [] := by
    cases rest with
    | nil => rfl
    | cons b rest =>
      have digit := all b (by simp)
      rw [ends b rfl] at digit
      cases digit
  rw [blank, unsigned, ended, List.nil_append, List.nil_append, List.append_nil]

/-- A numeral that is nothing but its digits has no sign. -/
theorem Numeral.unsigned {value sign : Bytes} (numeral : Numeral value sign value) :
    sign = [] := by
  obtain ⟨⟨blanks, rest, split, _⟩, _⟩ := numeral
  have total := congrArg List.length split
  simp only [List.length_append] at total
  exact List.eq_nil_of_length_eq_zero (by omega)

/-- A declared length is read strictly exactly where the value that declares it has nothing but
digits as soon as it begins with a number, blanks and sign included, that an `int` holds. -/
theorem content_length_strict_iff {s : Conn} {name value : Bytes}
    (only : s.http.headers_.entries.filter
      (fun e => toLowerCopy e.1 = bytes "content-length") = [(name, value)]) :
    StrictLength s value ↔ ∀ sign digits, Numeral value sign digits →
      0 ≤ signedValue sign digits → signedValue sign digits ≤ 2147483647 → value = digits := by
  have found := lookup_of_only only
  constructor
  · rintro ⟨reads, _⟩ sign digits numeral low high
    obtain ⟨n, denotes⟩ := Int.eq_ofNat_of_zero_le low
    have length := (getContentLength_eq_some_iff found).mpr
      ⟨sign, digits, numeral, denotes, by omega⟩
    exact numeral.whole ((reads n).mp length).2.1
  · intro strict
    have reads (n : Nat) : s.http.getContentLength = some n ↔ Denotes value n := by
      rw [getContentLength_eq_some_iff found]
      constructor
      · rintro ⟨sign, digits, numeral, denotes, high⟩
        obtain rfl := strict sign digits numeral (by omega) (by omega)
        obtain rfl := numeral.unsigned
        have same : digitsValue value = n := Int.ofNat_inj.mp denotes
        exact ⟨numeral.digits.1, numeral.digits.2, same, high⟩
      · intro denotes
        exact ⟨[], value, denotes.numeral, by simp [signedValue, denotes.2.2.1], denotes.2.2.2⟩
    refine ⟨reads, fun none => ?_⟩
    have absent : s.http.getContentLength = Option.none :=
      Option.eq_none_iff_forall_ne_some.mpr fun n length => none n ((reads n).mp length)
    refine ⟨absent, fun receives => ?_⟩
    unfold recvBodyStage
    rw [if_pos receives, absent]

/-- A connection that waits for the body its headers declare. -/
def Conn.declaring (value : Bytes) : Conn where
  http := { HttpData.new 0 0 5 with
    state_ := .recvBody
    headers_ := ((HttpData.new 0 0 5).beginScan.assign (bytes "Content-Length", value)).headers_ }
  wire := .idle
  epoll := .new

theorem content_length_strict_iff_twelve :
    StrictLength (.declaring (bytes "12")) (bytes "12") := by
  have only : (Conn.declaring (bytes "12")).http.headers_.entries.filter
      (fun e => toLowerCopy e.1 = bytes "content-length") =
      [(bytes "Content-Length", bytes "12")] := by decide
  refine (content_length_strict_iff only).mpr ?_
  have digits : (bytes "12").all isdigit = true := by decide
  exact fun _ _ numeral _ _ => numeral.whole (List.all_eq_true.mp digits)

/-- Of a list of lengths the first is taken for the length. -/
theorem list_is_a_length : ∃ s name value,
    s.http.headers_.entries.filter (fun e => toLowerCopy e.1 = bytes "content-length") =
      [(name, value)] ∧ ¬StrictLength s value := by
  refine ⟨.declaring (bytes "5, 6"), bytes "Content-Length", bytes "5, 6", by decide, ?_⟩
  intro strict
  have length : (Conn.declaring (bytes "5, 6")).http.getContentLength = some 5 := by decide
  -- The comma is no digit.
  have digits := ((strict.1 5).mp length).2.1 44 (by decide)
  cases digits

end LightAgent

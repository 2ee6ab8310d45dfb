import LightAgent.HttpData.HeaderBlock

/-!
# What a header block is taken for

A call of `parseHeaders` on a whole block, from its start: which texts are accepted as blocks of
header lines, what is stored for their fields, and where that is what the lines say.
-/
namespace LightAgent

open Library

attribute [local irreducible] toInt narrow

/-- A text as a block of header lines: line breaks, the lines, a blank line and the body. -/
structure HeaderText (text breaks : Bytes) (fields : List (Bytes × Bytes)) (body : Bytes) :
    Prop where
  text : text = breaks ++ (headerLines fields ++ (CRLF ++ body))
  breaks : ∀ c ∈ breaks, c = LF ∨ c = CR
  nonempty : fields ≠ []
  first : ∀ c, (headerLines fields).head? = some c → c ≠ LF ∧ c ≠ CR
  scannable : ∀ field ∈ fields, Scannable field

namespace HttpData

/-- The scan before the first line. -/
def atLine (h : HttpData) (i : Nat) : HeaderScan :=
  { h.beginScan with hState_ := .lf, now_read_line_begin := toInt i }

theorem atLine_between (h : HttpData) (i : Nat) : (h.atLine i).BetweenLines := ⟨rfl, rfl⟩

variable {outside : Int → UInt8} {h : HttpData} {breaks body : Bytes}
  {fields : List (Bytes × Bytes)}

theorem scanFrom_text (start : h.hState_ = .start)
    (text : HeaderText h.inBuffer_ breaks fields body) :
    scanFrom outside h.inBuffer_ 0 h.inBuffer_ h.beginScan =
      scanFrom outside h.inBuffer_ breaks.length (headerLines fields ++ (CRLF ++ body))
        (h.atLine breaks.length) := by
  have skipped : scanFrom outside h.inBuffer_ 0 (breaks ++ (headerLines fields ++ (CRLF ++ body)))
      h.beginScan = _ := scanFrom_skip rfl start text.breaks _
  rw [← text.text, Nat.zero_add] at skipped
  rw [skipped]
  -- There is a first byte of a name, which is no line break.
  cases line : headerLines fields with
  | nil => exact absurd (headerLines_eq_nil.mp line) text.nonempty
  | cons c cs =>
    exact scanFrom_first rfl start (text.first c (by rw [line]; rfl)) _

/-- The block is accepted: its lines are assigned and the body is left. -/
theorem parseHeaders_text (outside : Int → UInt8) (start : h.hState_ = .start)
    (text : HeaderText h.inBuffer_ breaks fields body)
    (measured : AllMeasured breaks.length fields) : h.parseHeaders outside =
      ({ h with
          hState_ := .endLf
          headers_ := h.headers_.assignAll (slices outside h.inBuffer_ breaks.length fields)
          inBuffer_ := body }, .success) := by
  obtain ⟨st, run, between, headers⟩ := scanFrom_lines (h.atLine_between breaks.length)
    text.scannable measured (CRLF ++ body)
  obtain ⟨st', ends, ended, headers', place⟩ := scanFrom_blockEnd between body
  have whole := text.text
  have inside : breaks.length + (headerLines fields).length + 2 ≤ h.inBuffer_.length := by
    rw [whole]
    simp only [List.length_append, CRLF, List.length_cons, List.length_nil]
    omega
  have left : h.inBuffer_.drop (breaks.length + (headerLines fields).length + 2) = body := by
    rw [whole, ← List.append_assoc, ← List.append_assoc, List.append_assoc (breaks ++ _)]
    rw [← List.length_append, ← List.drop_drop, List.drop_left]
    rfl
  unfold parseHeaders
  rw [scanFrom_text start text, run, ends, endScan_success ended place inside, headers', headers, left]
  rfl

theorem parseHeaders_text_error (outside : Int → UInt8) (start : h.hState_ = .start)
    (text : HeaderText h.inBuffer_ breaks fields body)
    (refused : Refused breaks.length fields) : (h.parseHeaders outside).2 = .error := by
  obtain ⟨st, fails⟩ := scanFrom_lines_error (h.atLine_between breaks.length) text.scannable
    refused (CRLF ++ body)
  unfold parseHeaders
  rw [scanFrom_text start text, fails]
  rfl

theorem parseHeaders_text_throws (outside : Int → UInt8) (start : h.hState_ = .start)
    (text : HeaderText h.inBuffer_ breaks fields body)
    (wrong : ¬AllMeasured breaks.length fields) (passes : ¬Refused breaks.length fields) :
    (h.parseHeaders outside).2 = .thrown := by
  have throws := @scanFrom_lines_throws outside h.inBuffer_ _ _ _
    (h.atLine_between breaks.length) text.scannable wrong passes (CRLF ++ body)
  unfold parseHeaders
  rw [scanFrom_text start text, throws]
  rfl

/-- Where such a text is accepted its lines come through. -/
theorem measured_of_success {outside : Int → UInt8} (start : h.hState_ = .start)
    (text : HeaderText h.inBuffer_ breaks fields body)
    (success : (h.parseHeaders outside).2 = .success) : AllMeasured breaks.length fields := by
  by_contra wrong
  by_cases refused : Refused breaks.length fields
  · cases (parseHeaders_text_error outside start text refused).symm.trans success
  · cases (parseHeaders_text_throws outside start text wrong refused).symm.trans success

/-- Whatever is accepted is such a text. -/
theorem parseHeaders_success (start : h.hState_ = .start)
    (accepted : (h.parseHeaders outside).2 = .success) : ∃ breaks fields body,
      HeaderText h.inBuffer_ breaks fields body ∧ AllMeasured breaks.length fields := by
  obtain ⟨breaks, rest, split, skipped, stops⟩ :=
    exists_split (fun c => c = LF ∨ c = CR) h.inBuffer_
  have ends : Ends outside h.inBuffer_ 0 (breaks ++ rest) h.beginScan := by
    rw [← split]
    unfold parseHeaders at accepted
    cases run : scanFrom outside h.inBuffer_ 0 h.inBuffer_ h.beginScan with
    | error exit =>
      rw [run] at accepted
      cases exit <;> cases accepted
    | ok st =>
      refine ⟨st, run, ?_⟩
      by_contra other
      rw [run] at accepted
      unfold endScan at accepted
      simp only [other, if_false] at accepted
      split at accepted <;> cases accepted
  -- Behind the breaks the scan stands before a line, and `Ends.lines` reads on from there.
  have begins : h.beginScan.hState_ = .start := start
  unfold Ends at ends
  rw [scanFrom_skip rfl begins skipped, Nat.zero_add] at ends
  obtain ⟨c, cs, _, rfl, _⟩ := Ends.next ends rfl (by rw [begins]; decide)
  have byte : c ≠ LF ∧ c ≠ CR := not_or.mp (stops c rfl)
  rw [scanFrom_first rfl begins byte] at ends
  obtain ⟨fields, body, text, scannable, measured⟩ :=
    Ends.lines ends (h.atLine_between breaks.length)
  refine ⟨breaks, fields, body, ⟨by rw [split, text], skipped, ?_, ?_, scannable⟩, measured⟩
  · rintro rfl
    -- A blank line first would be one of the breaks.
    cases text
    exact byte.2 rfl
  · intro d first
    cases line : headerLines fields with
    | nil => rw [line] at first; cases first
    | cons e es =>
      rw [line] at first text
      cases first
      cases text
      exact byte

end HttpData

/-! ### Places that are what they say -/

theorem measured_of_small {i : Nat} {field : Bytes × Bytes} (name : field.1 ≠ [])
    (value : field.2 ≠ []) (short : field.2.length ≤ 256)
    (small : i + field.1.length + 2 + field.2.length < 2 ^ 31) : Measured i field := by
  have name' := List.length_pos_of_ne_nil name
  have value' := List.length_pos_of_ne_nil value
  refine ⟨⟨?_, fun j low high => ?_, ?_⟩, ?_, ?_⟩
  · rw [toInt_of_lt (by omega)]
    omega
  · rw [toInt_of_lt (by omega)]
    omega
  · rw [toInt_of_lt (by omega)]
    omega
  · rw [toInt_of_lt (by omega), toInt_of_lt (by omega)]
    omega
  · rw [toInt_of_lt small, toInt_of_lt (by omega)]
    omega

/-- Where the places are, a value is never longer than 256 bytes. -/
theorem Passing.value_length {i : Nat} {field : Bytes × Bytes} (passing : Passing i field) :
    field.2.length ≤ 256 := by
  by_contra long
  have far := passing.short 256 (by decide) (by omega)
  -- The place is narrowed by a multiple of 2^32, which leaves the low bits of the distance.
  unfold toInt narrow at far
  rw [Int.bmod_def] at far
  split at far <;> omega

theorem AllMeasured.value_length {i : Nat} {fields : List (Bytes × Bytes)}
    (measured : AllMeasured i fields) : ∀ field ∈ fields, field.2.length ≤ 256 := by
  induction fields generalizing i with
  | nil => exact nofun
  | cons first fields ih =>
    intro field member
    rcases List.mem_cons.mp member with rfl | member
    · exact measured.1.toPassing.value_length
    · exact ih measured.2 field member

theorem length_headerLines_cons (field : Bytes × Bytes) (fields : List (Bytes × Bytes)) :
    (headerLines (field :: fields)).length =
      (headerLine field).length + (headerLines fields).length := by
  simp [headerLines]

theorem length_headerLine_le {field : Bytes × Bytes} {fields : List (Bytes × Bytes)}
    (member : field ∈ fields) : (headerLine field).length ≤ (headerLines fields).length := by
  induction fields with
  | nil => cases member
  | cons first fields ih =>
    rw [length_headerLines_cons]
    rcases List.mem_cons.mp member with rfl | later
    · exact Nat.le_add_right _ _
    · exact Nat.le_trans (ih later) (Nat.le_add_left _ _)

/-- Up to 2^31 the places of the lines are as they are. -/
theorem allMeasured_of_small {i : Nat} {fields : List (Bytes × Bytes)}
    (solid : ∀ field ∈ fields, field.1 ≠ [] ∧ field.2 ≠ [] ∧ field.2.length ≤ 256)
    (small : i + (headerLines fields).length ≤ 2 ^ 31 + 1) : AllMeasured i fields := by
  induction fields generalizing i with
  | nil => trivial
  | cons field fields ih =>
    obtain ⟨name, value, short⟩ := solid field List.mem_cons_self
    rw [length_headerLines_cons] at small
    have length := headerLine_length field
    refine ⟨measured_of_small name value short (by omega), ih ?_ (by omega)⟩
    exact fun field member => solid field (List.mem_cons_of_mem _ member)

/-- Up to there, it is at a value that is too long that the lines are refused. -/
theorem refused_of_small {i : Nat} {fields : List (Bytes × Bytes)}
    (solid : ∀ field ∈ fields, field.1 ≠ [] ∧ field.2 ≠ [])
    (long : ∃ field ∈ fields, 256 < field.2.length)
    (small : i + (headerLines fields).length ≤ 2 ^ 31 + 1) : Refused i fields := by
  induction fields generalizing i with
  | nil =>
    obtain ⟨_, member, _⟩ := long
    cases member
  | cons field fields ih =>
    obtain ⟨name, value⟩ := solid field List.mem_cons_self
    rw [length_headerLines_cons] at small
    have length := headerLine_length field
    by_cases short : field.2.length ≤ 256
    · obtain ⟨far, member, long⟩ := long
      have later : far ∈ fields := by
        rcases List.mem_cons.mp member with rfl | later
        · exact absurd short (Nat.not_le.mpr long)
        · exact later
      refine .inr ⟨measured_of_small name value short (by omega), ih ?_ ⟨far, later, long⟩ (by omega)⟩
      exact fun field member => solid field (List.mem_cons_of_mem _ member)
    · exact .inl fun passing => short passing.value_length

theorem slice_of_small (outside : Int → UInt8) {str rest : Bytes} {i : Nat} {field : Bytes × Bytes}
    (here : str.drop i = headerLine field ++ rest)
    (small : i + field.1.length + 2 + field.2.length < 2 ^ 31) :
    slice outside str i field = field := by
  have length : str.length = i + (headerLine field ++ rest).length := by
    have cut := congrArg List.length here
    rw [List.length_drop] at cut
    have some : 0 < (headerLine field ++ rest).length := by
      rw [List.length_append, headerLine_length]
      omega
    omega
  rw [List.length_append, headerLine_length] at length
  -- The four places are the ends of two pieces of the line.
  have name : (str.drop i).take field.1.length = field.1 := by
    rw [here]
    unfold headerLine
    rw [List.append_assoc, List.take_left]
  have value : (str.drop (i + field.1.length + 2)).take field.2.length = field.2 := by
    rw [← List.drop_drop, ← List.drop_drop, here]
    unfold headerLine
    rw [List.append_assoc, List.drop_left]
    change List.take _ (field.2 ++ CRLF ++ rest) = _
    rw [List.append_assoc, List.take_left]
  unfold slice
  rw [toInt_of_lt (by omega), toInt_of_lt (by omega), toInt_of_lt (by omega), toInt_of_lt small,
    charRange_inside outside (by omega), charRange_inside outside (by omega), name, value]

theorem slices_of_small (outside : Int → UInt8) {str rest : Bytes} {i : Nat}
    {fields : List (Bytes × Bytes)} (here : str.drop i = headerLines fields ++ rest)
    (small : i + (headerLines fields).length ≤ 2 ^ 31 + 1) :
    slices outside str i fields = fields := by
  induction fields generalizing i with
  | nil => rfl
  | cons field fields ih =>
    rw [headerLines_cons] at here
    rw [length_headerLines_cons] at small
    have length := headerLine_length field
    have next : str.drop (i + (headerLine field).length) = headerLines fields ++ rest := by
      rw [← List.drop_drop, here, List.drop_left]
    rw [slices, slice_of_small outside here (by omega), ih next (by omega)]

/-! ### Round trip -/

/-- A field as a client writes it. -/
structure PlainField (field : Bytes × Bytes) : Prop where
  name : field.1 ≠ []
  nameBytes : ∀ c ∈ field.1, c ≠ 58 ∧ c ≠ LF ∧ c ≠ CR
  value : field.2 ≠ []
  valueBytes : ∀ c ∈ field.2, c ≠ LF ∧ c ≠ CR

theorem PlainField.scannable {field : Bytes × Bytes} (plain : PlainField field) :
    Scannable field := by
  obtain ⟨name, value⟩ := field
  obtain ⟨name_, nameBytes, value_, valueBytes⟩ := plain
  cases name with
  | nil => exact absurd rfl name_
  | cons c name =>
    cases value with
    | nil => exact absurd rfl value_
    | cons b value =>
      -- A plain field is scannable, with less asked of the first bytes.
      refine .line (nameBytes c List.mem_cons_self).2.2 ?_ ?_
      · exact fun d member => nameBytes d (List.mem_cons_of_mem _ member)
      · exact fun member => (valueBytes CR (List.mem_cons_of_mem _ member)).2 rfl

/-- Fields as the lines of a block, behind the LF of the request line. -/
theorem headerText_of_plain {fields : List (Bytes × Bytes)} (nonempty : fields ≠ [])
    (plain : ∀ field ∈ fields, PlainField field) (body : Bytes) :
    HeaderText (LF :: (headerLines fields ++ (CRLF ++ body))) [LF] fields body := by
  refine ⟨rfl, by simp, nonempty, ?_, fun field member => (plain field member).scannable⟩
  intro c first
  cases fields with
  | nil => contradiction
  | cons field fields =>
    have plain' := plain field List.mem_cons_self
    obtain ⟨d, name, begins⟩ := List.exists_cons_of_ne_nil plain'.name
    have head : (headerLines (field :: fields)).head? = some d := by
      simp [headerLines, headerLine, begins]
    cases head.symm.trans first
    exact (plain'.nameBytes c (by rw [begins]; exact List.mem_cons_self)).2

/-- The line that goes beyond a place. -/
theorem exists_crossing {i n : Nat} {fields : List (Bytes × Bytes)} (low : i ≤ n)
    (high : n < i + (headerLines fields).length) : ∃ before field after,
      fields = before ++ field :: after ∧ i + (headerLines before).length ≤ n ∧
        n < i + (headerLines before).length + (headerLine field).length := by
  -- By the lines in front of the place: the first one ends behind it, or it is passed.
  induction fields generalizing i with
  | nil =>
    simp [headerLines] at high
    omega
  | cons first fields ih =>
    rw [length_headerLines_cons] at high
    by_cases here : n < i + (headerLine first).length
    · exact ⟨[], first, fields, rfl, by simpa [headerLines] using low, by simpa [headerLines] using here⟩
    · obtain ⟨before, field, after, rfl, low', high'⟩ :=
        ih (i := i + (headerLine first).length) (by omega) (by omega)
      refine ⟨first :: before, field, after, rfl, ?_, ?_⟩ <;> rw [length_headerLines_cons] <;> omega

/-- Where lines go on beyond 2^31 and CRs stand before the buffer, a name or a value is taken from
there. -/
theorem small_of_plain {str : Bytes} {i : Nat} {fields : List (Bytes × Bytes)} (begins : i < 2 ^ 32)
    (nonempty : fields ≠ []) (bounded : ∀ field ∈ fields, field.1.length < 2 ^ 32)
    (measured : AllMeasured i fields)
    (plain : ∀ name value, LastValue (slices (fun _ => CR) str i fields) name value →
      PlainField (name, value)) : i + (headerLines fields).length ≤ 2 ^ 31 + 1 := by
  by_contra large
  -- No name that is stored holds a CR.
  have clean (before : List (Bytes × Bytes)) (field : Bytes × Bytes) (after : List (Bytes × Bytes))
      (split : fields = before ++ field :: after) :
      0 ≤ toInt (i + (headerLines before).length) := by
    by_contra low
    have member : slice (fun _ => CR) str (i + (headerLines before).length) field ∈
        slices (fun _ => CR) str i fields := by
      rw [split, slices_append]
      exact List.mem_append_right _ List.mem_cons_self
    obtain ⟨value, last⟩ := exists_lastValue ⟨_, member, rfl⟩
    rw [split, allMeasured_append] at measured
    have inside : CR ∈ (slice (fun _ => CR) str (i + (headerLines before).length) field).1 :=
      charRange_before (Int.not_le.mp low) (Int.sub_pos_of_lt measured.2.1.key_lt)
    exact ((plain _ _ last).nameBytes CR inside).2.2 rfl
  have first : i < 2 ^ 31 := by
    by_contra beyond
    obtain ⟨field, after, split⟩ := List.exists_cons_of_ne_nil nonempty
    exact absurd (toInt_neg (Nat.not_lt.mp beyond) begins) (Int.not_lt.mpr (clean [] field after split))
  obtain ⟨before, field, after, split, low, high⟩ : ∃ before field after,
      fields = before ++ field :: after ∧ i + (headerLines before).length ≤ 2 ^ 31 + 1 ∧
        2 ^ 31 + 1 < i + (headerLines before).length + (headerLine field).length :=
    exists_crossing (by omega) (by omega)
  have long := bounded field (by rw [split]; exact List.mem_append_right _ List.mem_cons_self)
  have places := measured
  rw [split, allMeasured_append] at places
  obtain ⟨_, here, _⟩ := places
  have line := clean before field after split
  have few := here.toPassing.value_length
  have key := here.key_lt
  have value := here.value_lt
  generalize place : i + (headerLines before).length = k at line low high key value
  rw [headerLine_length] at high
  -- The line begins where it is, and so ends its name.
  have start : k < 2 ^ 31 := by
    by_contra beyond
    exact absurd (toInt_neg (Nat.not_lt.mp beyond) (by omega)) (Int.not_lt.mpr line)
  have name : k + field.1.length < 2 ^ 31 := by
    by_contra beyond
    rw [toInt_of_lt start] at key
    unfold toInt narrow at key
    rw [Int.bmod_def] at key
    split at key <;> omega
  -- So its value is the part that begins beyond 2^31, as it cannot end there only.
  have beyond : 2 ^ 31 ≤ k + field.1.length + 2 := by
    by_contra below
    have negative := toInt_neg (n := k + field.1.length + 2 + field.2.length) (by omega) (by omega)
    rw [toInt_of_lt (Nat.not_le.mp below)] at value
    omega
  have negative := toInt_neg beyond (by omega)
  cases after with
  | nil =>
    have cut : slices (fun _ => CR) str i fields =
        slices (fun _ => CR) str i before ++ [slice (fun _ => CR) str k field] := by
      rw [split, slices_append, place]
      rfl
    have last := lastValue_last (slices (fun _ => CR) str i before) (slice (fun _ => CR) str k field)
    rw [← cut] at last
    have inside : CR ∈ (slice (fun _ => CR) str k field).2 :=
      charRange_before negative (Int.sub_pos_of_lt value)
    exact ((plain _ _ last).valueBytes CR inside).2 rfl
  | cons next after =>
    have second := clean (before ++ [field]) next after (by rw [split]; simp)
    have place' : i + (headerLines (before ++ [field])).length =
        k + field.1.length + field.2.length + 4 := by
      have none : (headerLines []).length = 0 := rfl
      rw [headerLines_append, List.length_append, length_headerLines_cons, headerLine_length, none]
      omega
    rw [place'] at second
    have negative' := toInt_neg (n := k + field.1.length + field.2.length + 4) (by omega) (by omega)
    exact absurd negative' (Int.not_lt.mpr second)

/-- A name that comes twice. -/
def twice : List (Bytes × Bytes) :=
  [(bytes "Host", bytes "a"), (bytes "Accept", bytes "*"), (bytes "Host", bytes "b")]

/-- What a call that accepts a block stores are fields as a client writes them. -/
def StoresFields (outside : Int → UInt8) (h : HttpData) : Prop :=
  (h.parseHeaders outside).2 = .success →
    ∀ field ∈ (h.parseHeaders outside).1.headers_.entries, PlainField field

/-- No line of a block that comes through holds another: the lines end within 2^31, a name does not
begin with a colon or an LF, and of the values of a name the last one neither begins with a CR nor
holds an LF. -/
def LinesApart (text : Bytes) : Prop :=
  ∀ breaks fields body, HeaderText text breaks fields body → AllMeasured breaks.length fields →
    breaks.length + (headerLines fields).length ≤ 2 ^ 31 + 1 ∧
      (∀ field ∈ fields, field.1.head? ≠ some 58 ∧ field.1.head? ≠ some LF) ∧
        ∀ name value, LastValue fields name value → value.head? ≠ some CR ∧ LF ∉ value

theorem Scannable.plain_iff {field : Bytes × Bytes} (scannable : Scannable field) :
    PlainField field ↔ (field.1.head? ≠ some 58 ∧ field.1.head? ≠ some LF) ∧
      field.2.head? ≠ some CR ∧ LF ∉ field.2 := by
  obtain ⟨byte, plain, whole⟩ := scannable
  rename_i c b name value
  simp only [List.head?_cons, ne_eq, Option.some.injEq]
  -- The other bytes are plain already, as the states let none else pass.
  constructor
  · rintro ⟨_, names, _, values⟩
    obtain ⟨colon, line, _⟩ := names c List.mem_cons_self
    refine ⟨⟨colon, line⟩, (values b List.mem_cons_self).2, fun member => ?_⟩
    exact (values LF member).1 rfl
  · rintro ⟨⟨colon, line⟩, feed, lines⟩
    refine ⟨List.cons_ne_nil _ _, ?_, List.cons_ne_nil _ _, ?_⟩
    · intro d member
      rcases List.mem_cons.mp member with rfl | member
      · exact ⟨colon, line, byte⟩
      · exact plain d member
    · intro d member
      refine ⟨fun same => lines (same ▸ member), fun same => ?_⟩
      subst same
      rcases List.mem_cons.mp member with same | member
      · exact feed same.symm
      · exact whole member

/-- Of the lines of a text, only the first bytes of names and values and the LFs in values are
left to ask about. -/
theorem plain_lastValues_iff {fields : List (Bytes × Bytes)}
    (scannable : ∀ field ∈ fields, Scannable field) :
    (∀ name value, LastValue fields name value → PlainField (name, value)) ↔
      (∀ field ∈ fields, field.1.head? ≠ some 58 ∧ field.1.head? ≠ some LF) ∧
        ∀ name value, LastValue fields name value → value.head? ≠ some CR ∧ LF ∉ value := by
  constructor
  · intro plain
    constructor
    · intro field member
      obtain ⟨value, last⟩ := exists_lastValue ⟨field, member, rfl⟩
      exact ((scannable _ last.mem).plain_iff.mp (plain _ _ last)).1
    · intro name value last
      exact ((scannable _ last.mem).plain_iff.mp (plain _ _ last)).2
  · rintro ⟨names, values⟩ name value last
    exact (scannable _ last.mem).plain_iff.mpr ⟨names _ last.mem, values name value last⟩

/-- A call started at a block stores fields, whatever stands beside the buffer, if no line of the
block holds another; and of up to 2^32 bytes, only then. -/
theorem header_soundness_iff {h : HttpData} (start : h.hState_ = .start)
    (empty : h.headers_ = .empty) :
    (LinesApart h.inBuffer_ → ∀ outside, StoresFields outside h) ∧
      (h.inBuffer_.length ≤ 2 ^ 32 → (∀ outside, StoresFields outside h) →
        LinesApart h.inBuffer_) := by
  have reads {outside : Int → UInt8} {breaks body : Bytes} {fields : List (Bytes × Bytes)}
      (text : HeaderText h.inBuffer_ breaks fields body)
      (measured : AllMeasured breaks.length fields) : StoresFields outside h ↔
        ∀ name value, LastValue (slices outside h.inBuffer_ breaks.length fields) name value →
          PlainField (name, value) := by
    unfold StoresFields
    rw [HttpData.parseHeaders_text outside start text measured, empty]
    simp only [Prod.forall, SortedMap.mem_assignAll_empty, forall_const]
  have small {outside : Int → UInt8} {breaks body : Bytes} {fields : List (Bytes × Bytes)}
      (text : HeaderText h.inBuffer_ breaks fields body)
      (fits : breaks.length + (headerLines fields).length ≤ 2 ^ 31 + 1) :
      slices outside h.inBuffer_ breaks.length fields = fields := by
    apply slices_of_small outside _ fits
    · exact CRLF ++ body
    · rw [text.text, List.drop_left]
  constructor
  -- What is accepted has a reading as a block, and the condition is on every reading.
  · intro apart outside
    by_cases success : (h.parseHeaders outside).2 = .success
    · obtain ⟨breaks, fields, body, text, measured⟩ := HttpData.parseHeaders_success start success
      obtain ⟨fits, lines⟩ := apart breaks fields body text measured
      rw [reads text measured, small text fits]
      exact (plain_lastValues_iff text.scannable).mpr lines
    · exact fun accepted => absurd accepted success
  · intro bound stores breaks fields body text measured
    have length := congrArg List.length text.text
    simp only [List.length_append, CRLF, List.length_cons, List.length_nil] at length
    have bounded : ∀ field ∈ fields, field.1.length < 2 ^ 32 := by
      intro field member
      have inside := length_headerLine_le member
      rw [headerLine_length] at inside
      omega
    have fits := small_of_plain (by omega) text.nonempty bounded measured
      ((reads text measured).mp (stores fun _ => CR))
    have plain := (reads text measured).mp (stores fun _ => CR)
    rw [small text fits] at plain
    exact ⟨fits, (plain_lastValues_iff text.scannable).mp plain⟩

/-- A block of one line. -/
theorem header_soundness_iff_host : LinesApart (bytes "\nHost: a\r\n\r\nbody") := by
  let h : HttpData := { HttpData.new 0 0 5 with inBuffer_ := bytes "\nHost: a\r\n\r\nbody" }
  refine (header_soundness_iff (h := h) rfl rfl).2 (by decide) fun outside _ field member => ?_
  have plain : PlainField (bytes "Host", bytes "a") :=
    ⟨by decide, by decide +kernel, by decide, by decide +kernel⟩
  have text : HeaderText h.inBuffer_ [LF] [(bytes "Host", bytes "a")] (bytes "body") :=
    headerText_of_plain (List.cons_ne_nil (bytes "Host", bytes "a") [])
      (fun field member => List.mem_singleton.mp member ▸ plain) (bytes "body")
  have cut : slices outside h.inBuffer_ 1 [(bytes "Host", bytes "a")] = [(bytes "Host", bytes "a")] :=
    @slices_of_small outside _ (CRLF ++ bytes "body") _ _ rfl (by decide)
  have measured : AllMeasured 1 [(bytes "Host", bytes "a")] :=
    allMeasured_of_small (by decide) (by decide)
  rw [HttpData.parseHeaders_text outside rfl text measured] at member
  change field ∈ (SortedMap.assignAll _ (slices outside h.inBuffer_ 1 _)).entries at member
  rw [cut] at member
  rw [List.mem_singleton.mp member]
  exact plain

/-- A line that ends with an LF alone, and the line behind it, are one value. -/
theorem second_line_is_absorbed : ¬StoresFields (fun _ => 0)
    { HttpData.new 0 0 5 with inBuffer_ := bytes "\nA: b\nEvil: x\r\n\r\n" } := by
  intro stores
  have success : (({ HttpData.new 0 0 5 with
      inBuffer_ := bytes "\nA: b\nEvil: x\r\n\r\n" }).parseHeaders fun _ => 0).2 = .success := by
    decide +kernel
  have stored : (bytes "A", bytes "b\nEvil: x") ∈ (({ HttpData.new 0 0 5 with
      inBuffer_ := bytes "\nA: b\nEvil: x\r\n\r\n" }).parseHeaders fun _ =>
        0).1.headers_.entries := by
    decide +kernel
  have line : LF ∈ bytes "b\nEvil: x" := by decide
  exact ((stores success _ stored).valueBytes LF line).1 rfl

end LightAgent

import LightAgent.HttpData.ParseURI

/-!
# HttpData::parseHeaders

The nine-state scan of the header block. `hState_` and `headers_` are members and
outlive a call, the four character offsets are locals and do not. A scan that is
started in `H_START` keeps its offsets inside the buffer (`InRange`), so what it
makes of the bytes it has seen does not depend on what follows them.
-/
namespace LightAgent

open Library

/-- The members and locals the loop works on. -/
structure HeaderScan where
  hState_ : ParseState
  headers_ : HeaderMap
  key_start : Int
  key_end : Int
  value_start : Int
  value_end : Int
  now_read_line_begin : Int
  body_start : Option Nat
  notFinish : Bool
  deriving DecidableEq

/-- The scan as a call of `parseHeaders` sets it up. -/
def HttpData.beginScan (h : HttpData) : HeaderScan where
  hState_ := h.hState_
  headers_ := h.headers_
  key_start := -1
  key_end := -1
  value_start := -1
  value_end := -1
  now_read_line_begin := 0
  body_start := none
  notFinish := true

/-- The ways out of the loop before it is over: `return PARSE_HEADER_ERROR`, or an exception. -/
inductive HeaderExit where
  | returns (st : HeaderScan)
  | throws

/-- The body of the loop for the byte `c` at index `i`. -/
def scanByte (outside : Int → UInt8) (str : Bytes) (i : Nat) (c : UInt8) (st : HeaderScan) :
    Except HeaderExit HeaderScan :=
  match st.hState_ with
  | .start =>
    if c = LF ∨ c = CR then .ok st
    else .ok { st with hState_ := .key, key_start := toInt i, now_read_line_begin := toInt i }
  | .key =>
    if c = 58 then
      let st := { st with key_end := toInt i }
      -- the difference of two `int`s is an `int` too
      if narrow (st.key_end - st.key_start) ≤ 0 then .error (.returns st)
      else .ok { st with hState_ := .colon }
    else if c = LF ∨ c = CR then .error (.returns st)
    else .ok st
  | .colon => if c = 32 then .ok { st with hState_ := .spacesAfterColon } else .error (.returns st)
  | .spacesAfterColon => .ok { st with hState_ := .value, value_start := toInt i }
  | .value =>
    if c = CR then
      let st := { st with hState_ := .cr, value_end := toInt i }
      if narrow (st.value_end - st.value_start) ≤ 0 then .error (.returns st) else .ok st
    -- `i - value_start` is a subtraction of `size_t`
    else if ((i : Int) - st.value_start) % 2 ^ 64 > 255 then .error (.returns st)
    else .ok st
  | .cr =>
    if c = LF then
      -- `std::length_error`: a `std::string` of a range that ends before it begins
      if st.key_end < st.key_start ∨ st.value_end < st.value_start then .error .throws
      else
        let key := charRange outside str st.key_start st.key_end
        let value := charRange outside str st.value_start st.value_end
        .ok { st with
          hState_ := .lf, headers_ := st.headers_.assign key value, now_read_line_begin := toInt i }
    else .error (.returns st)
  | .lf =>
    if c = CR then .ok { st with hState_ := .endCr }
    else .ok { st with key_start := toInt i, hState_ := .key }
  | .endCr =>
    if c = LF then .ok { st with hState_ := .endLf, body_start := some (i + 1) }
    else .error (.returns st)
  | .endLf =>
    .ok { st with
      notFinish := false, key_start := toInt i, now_read_line_begin := toInt i,
      body_start := some i }

/-- The headers when these fields have been stored, in their order. -/
def HeaderMap.ofFields (fields : List (Bytes × Bytes)) : HeaderMap :=
  SortedMap.empty.assignAll fields

/-- The scan with one field more. -/
def HeaderScan.assign (st : HeaderScan) (field : Bytes × Bytes) : HeaderScan :=
  { st with headers_ := st.headers_.assign field.1 field.2 }

/-- The loop from index `i` on, the bytes still ahead being given. -/
def scanFrom (outside : Int → UInt8) (str : Bytes) :
    Nat → Bytes → HeaderScan → Except HeaderExit HeaderScan
  | _, [], st => .ok st
  | i, c :: cs, st =>
    if st.notFinish then
      match scanByte outside str i c st with
      | .error exit => .error exit
      | .ok st => scanFrom outside str (i + 1) cs st
    else .ok st

/-- What `parseHeaders` does once its loop is over. Behind an exception no member is looked at, and
they are left as the call has found them. -/
def HttpData.endScan (h : HttpData) : Except HeaderExit HeaderScan → HttpData × HeaderState
  | .error (.returns st) => ({ h with hState_ := st.hState_, headers_ := st.headers_ }, .error)
  | .error .throws => (h, .thrown)
  | .ok st =>
    let scanned := { h with hState_ := st.hState_, headers_ := st.headers_ }
    if st.hState_ = .endLf then
      match st.body_start with
      | none => ({ scanned with inBuffer_ := [] }, .success)
      | some body =>
        if body > h.inBuffer_.length then ({ scanned with inBuffer_ := [] }, .success)
        else ({ scanned with inBuffer_ := h.inBuffer_.drop body }, .success)
    -- `std::out_of_range`: a negative place is a `size_t` beyond every end
    else if st.now_read_line_begin < 0 then (h, .thrown)
    else ({ scanned with inBuffer_ := h.inBuffer_.drop st.now_read_line_begin.toNat }, .again)

def HttpData.parseHeaders (outside : Int → UInt8) (h : HttpData) : HttpData × HeaderState :=
  h.endScan (scanFrom outside h.inBuffer_ 0 h.inBuffer_ h.beginScan)

/-! ### Offsets of a scan from the start of a block -/

/-- Which offsets are set, and where they lie, when the byte at index `i` is next. -/
def InRange (i : Nat) (st : HeaderScan) : Prop :=
  match st.hState_ with
  | .start | .lf | .endCr => True
  | .key => 0 ≤ st.key_start ∧ st.key_start < i
  | .colon | .spacesAfterColon =>
    0 ≤ st.key_start ∧ st.key_start < st.key_end ∧ st.key_end < i
  | .value =>
    0 ≤ st.key_start ∧ st.key_start < st.key_end ∧ st.key_end < st.value_start ∧
      st.value_start < i
  | .cr =>
    0 ≤ st.key_start ∧ st.key_start < st.key_end ∧ st.key_end < st.value_start ∧
      st.value_start < st.value_end ∧ st.value_end < i
  | .endLf => ∃ body ≤ i, st.body_start = some body ∧ (st.notFinish = true → body = i)

theorem scanByte_inRange {outside : Int → UInt8} {str : Bytes} {i : Nat} {c : UInt8}
    {st st' : HeaderScan} (small : i < 2 ^ 31) (inside : InRange i st)
    (next : scanByte outside str i c st = .ok st') : InRange (i + 1) st' := by
  have narrow := toInt_of_lt small
  unfold scanByte at next
  unfold InRange at inside
  -- One case a state: the positions it sets are at most `i`, and `i` fits an `int`.
  cases state : st.hState_ <;> rw [state] at next inside <;> dsimp only at next inside
  case start =>
    split at next <;> cases next
    · simp only [InRange, state]
    · simp only [InRange, narrow]; omega
  case key =>
    repeat' split at next
    all_goals cases next
    · simp only [InRange, narrow]; omega
    · simp only [InRange, state]; omega
  case colon =>
    split at next <;> cases next
    simp only [InRange]; omega
  case spacesAfterColon =>
    cases next
    simp only [InRange, narrow]; omega
  case value =>
    repeat' split at next
    all_goals cases next
    · simp only [InRange, narrow]; omega
    · simp only [InRange, state]; omega
  case cr =>
    repeat' split at next
    all_goals cases next
    simp only [InRange]
  case lf =>
    split at next <;> cases next
    · simp only [InRange]
    · simp only [InRange, narrow]; omega
  case endCr =>
    split at next <;> cases next
    exact ⟨i + 1, Nat.le_refl _, rfl, fun _ => rfl⟩
  -- The body starts where the state was entered or here, whichever `notFinish` tells.
  case endLf =>
    cases next
    simp only [InRange]
    exact ⟨i, by omega, rfl, fun going => by cases going⟩

/-- With its offsets in range, a step reads only bytes it has seen. -/
theorem scanByte_append {outside : Int → UInt8} {str : Bytes} {i : Nat} {st : HeaderScan}
    (inside : InRange i st) (seen : i ≤ str.length) (c : UInt8) (s : Bytes) :
    scanByte outside (str ++ s) i c st = scanByte outside str i c st := by
  unfold scanByte
  unfold InRange at inside
  cases state : st.hState_ <;> simp only [state] at inside ⊢
  case cr =>
    obtain ⟨key_low, key, gap, value, value_high⟩ := inside
    rw [charRange_append outside key_low (by omega), charRange_append outside (by omega) (by omega)]

/-- The scan of a longer buffer is the scan of the shorter one, carried on. -/
theorem scanFrom_append {outside : Int → UInt8} {str : Bytes} (small : str.length < 2 ^ 31)
    (s cs : Bytes) {i : Nat} {st : HeaderScan} (place : str.length = i + cs.length)
    (inside : InRange i st) :
    scanFrom outside (str ++ s) i (cs ++ s) st =
      match scanFrom outside str i cs st with
      | .error st' => .error st'
      | .ok st' =>
        if st'.notFinish then scanFrom outside (str ++ s) str.length s st' else .ok st' := by
  induction cs generalizing i st with
  | nil =>
    have here : i = str.length := by simpa using place.symm
    subst here
    -- The whole of `str` is scanned; the added bytes are met only while `notFinish` holds.
    cases s with
    | nil => simp [scanFrom]
    | cons c s => cases going : st.notFinish <;> simp [scanFrom, going]
  | cons c cs ih =>
    rw [List.length_cons] at place
    rw [List.cons_append, scanFrom, scanFrom]
    cases going : st.notFinish with
    | false => simp [going]
    | true =>
      simp only [if_true]
      -- A step looks at bytes before `i` only, and these are the same.
      rw [scanByte_append inside (by omega)]
      cases next : scanByte outside str i c st with
      | error st' => rfl
      | ok st' => exact ih (by omega) (scanByte_inRange (by omega) inside next)

/-- Where a scan stops its offsets are in range, and it stops at the end of the buffer
unless the header block ended before. -/
theorem scanFrom_inRange {outside : Int → UInt8} {str : Bytes} (small : str.length < 2 ^ 31)
    (cs : Bytes) {i : Nat} {st st' : HeaderScan} (place : str.length = i + cs.length)
    (inside : InRange i st) (done : scanFrom outside str i cs st = .ok st') :
    ∃ stop ≤ str.length, InRange stop st' ∧ (st'.notFinish = true → stop = str.length) := by
  induction cs generalizing i st with
  | nil =>
    cases done
    exact ⟨i, by omega, inside, fun _ => by simpa using place.symm⟩
  | cons c cs ih =>
    rw [List.length_cons] at place
    rw [scanFrom] at done
    cases going : st.notFinish with
    -- The scan has stopped here.
    | false =>
      rw [going] at done
      cases done
      exact ⟨i, by omega, inside, fun h => by simp [going] at h⟩
    | true =>
      rw [going] at done
      simp only [if_true] at done
      cases next : scanByte outside str i c st with
      | error st₁ => simp [next] at done
      | ok st₁ =>
        rw [next] at done
        exact ih (by omega) (scanByte_inRange (by omega) inside next) done

/-! ### No exception -/

/-- No place is behind one that is set later, and the line begins in the buffer. -/
structure InOrder (i : Nat) (st : HeaderScan) : Prop where
  line : 0 ≤ st.now_read_line_begin
  places : match st.hState_ with
    | .key => st.key_start < i
    | .colon | .spacesAfterColon => st.key_start ≤ st.key_end
    | .value => st.key_start ≤ st.key_end ∧ st.value_start < i
    | .cr => st.key_start ≤ st.key_end ∧ st.value_start ≤ st.value_end
    | .start | .lf | .endCr | .endLf => True

theorem InOrder.begin (h : HttpData) : InOrder 0 h.beginScan := by
  refine ⟨Int.le_refl 0, ?_⟩
  unfold HttpData.beginScan
  cases h.hState_ <;> simp

/-- The loop has not been left by an exception, and what it goes on with is so. -/
def Unthrown (P : HeaderScan → Prop) : Except HeaderExit HeaderScan → Prop
  | .ok st => P st
  | .error (.returns _) => True
  | .error .throws => False

theorem scanByte_inOrder {outside : Int → UInt8} {str : Bytes} {i : Nat} {c : UInt8}
    {st : HeaderScan} (small : i < 2 ^ 31) (inside : InOrder i st) :
    Unthrown (InOrder (i + 1)) (scanByte outside str i c st) := by
  have here := toInt_of_lt small
  obtain ⟨line, places⟩ := inside
  unfold scanByte
  -- One case a state: the places it sets are at `i`, behind those that are set already.
  cases state : st.hState_ <;> simp only [state] at places ⊢
  case start =>
    split
    · exact ⟨line, by simp only [state]⟩
    · exact ⟨by dsimp only; omega, by dsimp only; omega⟩
  case key =>
    split
    · generalize narrow (toInt i - st.key_start) = distance
      split
      · trivial
      · exact ⟨line, by dsimp only; omega⟩
    · split
      · trivial
      · exact ⟨line, by simp only [state]; omega⟩
  case colon =>
    split
    · exact ⟨line, places⟩
    · trivial
  case spacesAfterColon => exact ⟨line, by dsimp only; omega⟩
  case value =>
    split
    · generalize narrow (toInt i - st.value_start) = distance
      split
      · trivial
      · exact ⟨line, by dsimp only; omega⟩
    · split
      · trivial
      · exact ⟨line, by simp only [state]; omega⟩
  case cr =>
    split
    · rw [if_neg (by omega)]
      exact ⟨by dsimp only; omega, trivial⟩
    · trivial
  case lf =>
    split
    · exact ⟨line, trivial⟩
    · exact ⟨line, by dsimp only; omega⟩
  case endCr =>
    split
    · exact ⟨line, trivial⟩
    · trivial
  case endLf => exact ⟨by dsimp only; omega, trivial⟩

theorem scanFrom_inOrder {outside : Int → UInt8} {str : Bytes} (cs : Bytes) {i : Nat}
    {st : HeaderScan} (small : i + cs.length ≤ 2 ^ 31) (inside : InOrder i st) :
    Unthrown (0 ≤ ·.now_read_line_begin) (scanFrom outside str i cs st) := by
  induction cs generalizing i st with
  | nil => exact inside.line
  | cons c cs ih =>
    rw [List.length_cons] at small
    rw [scanFrom]
    split
    next =>
      have step := @scanByte_inOrder outside str i c st (by omega) inside
      cases next : scanByte outside str i c st with
      | error exit =>
        rw [next] at step
        cases exit with
        | returns st => trivial
        | throws => cases step
      | ok st' =>
        rw [next] at step
        exact ih (by omega) step
    next => exact inside.line

/-- No exception leaves a call on at most 2^31 bytes, wherever the scan goes on. -/
theorem HttpData.parseHeaders_returns (outside : Int → UInt8) {h : HttpData}
    (small : h.inBuffer_.length ≤ 2 ^ 31) : (h.parseHeaders outside).2 ≠ .thrown := by
  have order : Unthrown _ (scanFrom outside h.inBuffer_ 0 h.inBuffer_ h.beginScan) :=
    scanFrom_inOrder h.inBuffer_ (by omega) (InOrder.begin h)
  unfold parseHeaders
  cases scan : scanFrom outside h.inBuffer_ 0 h.inBuffer_ h.beginScan with
  | error exit =>
    rw [scan] at order
    cases exit with
    | returns st => nofun
    | throws => cases order
  | ok st =>
    rw [scan] at order
    unfold endScan
    dsimp only
    rw [if_neg (Int.not_lt.mpr order)]
    repeat' split
    all_goals nofun

/-! ### A block that is complete -/

theorem InRange.begin {h : HttpData} (fresh : h.hState_ = .start) : InRange 0 h.beginScan := by
  unfold InRange HttpData.beginScan
  simp only [fresh]

/-- The byte after the blank line stops the scan, which reports the same place. -/
theorem scanFrom_endLf (outside : Int → UInt8) (str : Bytes) {st : HeaderScan} (i : Nat)
    (ended : st.hState_ = .endLf) (going : st.notFinish = true) (body : st.body_start = some i)
    (s : Bytes) : ∃ st', scanFrom outside str i s st = .ok st' ∧ st'.hState_ = .endLf ∧
      st'.headers_ = st.headers_ ∧ st'.body_start = some i := by
  cases s with
  | nil => exact ⟨st, rfl, ended, rfl, body⟩
  | cons c s =>
    refine ⟨{ st with notFinish := false, key_start := toInt i, now_read_line_begin := toInt i,
                      body_start := some i }, ?_, ended, rfl, rfl⟩
    rw [scanFrom, going]
    simp only [if_true, scanByte, ended]
    cases s <;> simp [scanFrom]

namespace HttpData

theorem endScan_success {h : HttpData} {st : HeaderScan} (ended : st.hState_ = .endLf)
    {body : Nat} (start : st.body_start = some body) (inside : body ≤ h.inBuffer_.length) :
    h.endScan (.ok st) =
      ({ h with hState_ := .endLf, headers_ := st.headers_,
                inBuffer_ := h.inBuffer_.drop body }, .success) := by
  simp only [endScan, ended, start, if_true, gt_iff_lt, Nat.not_lt.mpr inside, if_false]

/-- `parseHeaders` is determined by the scan state, the headers so far and the buffer. -/
theorem parseHeaders_same (outside : Int → UInt8) {h k : HttpData}
    (hState : k.hState_ = h.hState_) (inBuffer : k.inBuffer_ = h.inBuffer_)
    (headers : k.headers_ = h.headers_) :
    k.parseHeaders outside = ({ k with
      hState_ := (h.parseHeaders outside).1.hState_
      headers_ := (h.parseHeaders outside).1.headers_
      inBuffer_ := (h.parseHeaders outside).1.inBuffer_ }, (h.parseHeaders outside).2) := by
  have begins : k.beginScan = h.beginScan := by
    unfold beginScan
    rw [hState, headers]
  unfold parseHeaders
  rw [begins, inBuffer]
  generalize scanFrom outside h.inBuffer_ 0 h.inBuffer_ h.beginScan = scan
  cases scan with
  | error exit => cases exit <;> simp only [endScan, ← inBuffer, ← hState, ← headers]
  | ok st =>
    unfold endScan
    dsimp only
    rw [inBuffer]
    repeat' split
    all_goals first
      | rfl
      | simp only [← inBuffer, ← hState, ← headers]

/-- A block that a call of `parseHeaders` accepts or rejects from its start is read
alike whatever follows it, and what follows is left in the buffer. -/
theorem parseHeaders_received (outside : Int → UInt8) {h : HttpData}
    (fresh : h.hState_ = .start) (small : h.inBuffer_.length < 2 ^ 31)
    (complete : (h.parseHeaders outside).2 ≠ .again) (s : Bytes) :
    (h.received s).parseHeaders outside =
      ((h.parseHeaders outside).1.received s, (h.parseHeaders outside).2) := by
  have longer : scanFrom outside (h.received s).inBuffer_ 0 (h.received s).inBuffer_
      (h.received s).beginScan = _ :=
    scanFrom_append small s h.inBuffer_ (by simp) (InRange.begin fresh)
  have begins : (h.received s).beginScan = h.beginScan := rfl
  unfold parseHeaders at complete ⊢
  rw [longer, begins]
  cases scan : scanFrom outside h.inBuffer_ 0 h.inBuffer_ h.beginScan with
  | error exit => cases exit <;> rfl
  | ok st =>
    rw [scan] at complete
    -- Any other state asks for more.
    have ended : st.hState_ = .endLf := by
      by_contra other
      have returns := parseHeaders_returns outside (Nat.le_of_lt small)
      unfold parseHeaders at returns
      rw [scan] at returns
      unfold endScan at returns complete
      simp only [other, if_false] at returns complete
      split at returns
      · exact returns rfl
      next forward => exact complete (by rw [if_neg forward])
    obtain ⟨stop, high, inside, last⟩ :=
      scanFrom_inRange small h.inBuffer_ (by simp) (InRange.begin fresh) scan
    -- The scan ended at the body, which lies within the bytes that were there.
    obtain ⟨body, low, start, here⟩ : ∃ body ≤ stop, st.body_start = some body ∧
        (st.notFinish = true → body = stop) := by simpa only [InRange, ended] using inside
    have within : body ≤ (h.received s).inBuffer_.length := by
      simp only [received, List.length_append]; omega
    rw [endScan_success ended start (by omega)]
    have rest : (h.received s).inBuffer_.drop body = h.inBuffer_.drop body ++ s :=
      List.drop_append_of_le_length (by omega)
    cases going : st.notFinish with
    | false =>
      simp only [going, Bool.false_eq_true, if_false]
      rw [endScan_success ended start within, rest]
      rfl
    -- It ended with its last byte, so it goes on for one more byte and ends there.
    | true =>
      have atEnd : body = h.inBuffer_.length := by rw [here going, last going]
      simp only [going, if_true]
      obtain ⟨st', run, ended', headers, start'⟩ := scanFrom_endLf outside
        (h.inBuffer_ ++ s) h.inBuffer_.length ended going (atEnd ▸ start) s
      rw [run, endScan_success ended' start' (atEnd ▸ within), headers, ← atEnd, rest]
      rfl

/-! ### A block whose scan has not left its start -/

theorem scanByte_leaves_start {outside : Int → UInt8} {str : Bytes} {i : Nat} {c : UInt8}
    {st st' : HeaderScan} (next : scanByte outside str i c st = .ok st')
    (still : st'.hState_ = .start) : st' = st := by
  unfold scanByte at next
  cases state : st.hState_ <;> simp only [state] at next
  all_goals
    repeat' split at next
    all_goals cases next
    all_goals first
      | rfl
      | simp_all

theorem scanFrom_start {outside : Int → UInt8} {str : Bytes} (cs : Bytes) {i : Nat}
    {st st' : HeaderScan} (done : scanFrom outside str i cs st = .ok st')
    (still : st'.hState_ = .start) : st' = st := by
  induction cs generalizing i st with
  | nil => cases done; rfl
  | cons c cs ih =>
    rw [scanFrom] at done
    cases going : st.notFinish with
    | false => rw [going] at done; cases done; rfl
    | true =>
      rw [going] at done
      simp only [if_true] at done
      cases next : scanByte outside str i c st with
      | error st₁ => simp [next] at done
      | ok st₁ =>
        rw [next] at done
        -- Nothing leads back to `H_START`, so the first step did not leave it.
        have same := ih done
        subst same
        exact scanByte_leaves_start next still

/-- A call that asks for more bytes with the scan still at the start of the block has
changed nothing. -/
theorem parseHeaders_start (outside : Int → UInt8) {h : HttpData}
    (waits : (h.parseHeaders outside).2 = .again)
    (still : (h.parseHeaders outside).1.hState_ = .start) : (h.parseHeaders outside).1 = h := by
  unfold parseHeaders at *
  cases scan : scanFrom outside h.inBuffer_ 0 h.inBuffer_ h.beginScan with
  | error exit => cases exit <;> simp [scan, endScan] at waits
  | ok st =>
    rw [scan] at still waits
    -- A scan that came to the end of the headers does not ask for more.
    by_cases ended : st.hState_ = .endLf
    · simp only [endScan, ended, if_true] at waits
      repeat' split at waits
      all_goals cases waits
    · simp only [endScan, ended, if_false] at still waits ⊢
      split at waits
      · cases waits
      next forward =>
        rw [if_neg forward] at still ⊢
        have same := scanFrom_start h.inBuffer_ scan still
        subst same
        rfl

end HttpData

end LightAgent

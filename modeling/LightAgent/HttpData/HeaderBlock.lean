import LightAgent.HttpData.ParseHeaders

/-!
# The lines of a header block

`scanByte` takes one byte, a line `name: value` many. Here the scan is followed line by line: which
lines it takes, what it cuts out of the buffer for them, and where it comes to the end of the
block. The places of a line are `int`s, so from 2^31 on they are not where the line is.
-/
namespace LightAgent

open Library

def CRLF : Bytes := [CR, LF]

variable {outside : Int → UInt8} {str : Bytes}

-- The places of a line are compared as they stand, never computed.
attribute [local irreducible] toInt narrow

/-! ### Steps -/

theorem scanFrom_cons {i : Nat} {c : UInt8} {st st' : HeaderScan} (cs : Bytes)
    (going : st.notFinish = true) (next : scanByte outside str i c st = .ok st') :
    scanFrom outside str i (c :: cs) st = scanFrom outside str (i + 1) cs st' := by
  rw [scanFrom, going, if_pos rfl, next]

theorem scanFrom_cons_error {i : Nat} {c : UInt8} {st : HeaderScan} {exit : HeaderExit}
    (cs : Bytes) (going : st.notFinish = true) (next : scanByte outside str i c st = .error exit) :
    scanFrom outside str i (c :: cs) st = .error exit := by
  rw [scanFrom, going, if_pos rfl, next]

/-- Bytes that a state takes without leaving it. -/
theorem scanFrom_stays {cs : Bytes} {i : Nat} {st : HeaderScan} (going : st.notFinish = true)
    (stays : ∀ j (_ : j < cs.length), scanByte outside str (i + j) cs[j] st = .ok st)
    (rest : Bytes) :
    scanFrom outside str i (cs ++ rest) st = scanFrom outside str (i + cs.length) rest st := by
  -- Each byte is met at its own index: the state does not change, the index does.
  induction cs generalizing i with
  | nil => rfl
  | cons c cs ih =>
    have here : scanByte outside str i c st = .ok st := stays 0 (by simp)
    have later (j : Nat) (inside : j < cs.length) :
        scanByte outside str (i + 1 + j) cs[j] st = .ok st := by
      have step := stays (j + 1) (by simpa using inside)
      simpa [Nat.add_assoc, Nat.add_comm 1 j] using step
    rw [List.cons_append, scanFrom_cons _ going here, ih later]
    congr 1
    simp only [List.length_cons]
    omega

/-- Before the first line every CR and LF is passed over. -/
theorem scanFrom_skip {cs : Bytes} {i : Nat} {st : HeaderScan} (going : st.notFinish = true)
    (start : st.hState_ = .start) (breaks : ∀ c ∈ cs, c = LF ∨ c = CR) (rest : Bytes) :
    scanFrom outside str i (cs ++ rest) st = scanFrom outside str (i + cs.length) rest st := by
  apply scanFrom_stays going
  intro j inside
  unfold scanByte
  simp only [start]
  rw [if_pos (breaks _ (List.getElem_mem inside))]

/-- The scan does not leave its start at a CR or LF. -/
theorem HttpData.parseHeaders_breaks (outside : Int → UInt8) {h : HttpData}
    (start : h.hState_ = .start) (breaks : ∀ c ∈ h.inBuffer_, c = LF ∨ c = CR) :
    h.parseHeaders outside = (h, .again) := by
  have skipped : scanFrom outside h.inBuffer_ 0 (h.inBuffer_ ++ []) h.beginScan = _ :=
    scanFrom_skip rfl start breaks []
  rw [List.append_nil] at skipped
  unfold HttpData.parseHeaders
  rw [skipped, scanFrom]
  -- The scan has come to no end, so the call asks for more.
  have before : h.beginScan.hState_ ≠ .endLf := by
    change h.hState_ ≠ _
    rw [start]
    decide
  unfold HttpData.endScan
  dsimp only
  rw [if_neg before]
  exact if_neg (Int.not_lt.mpr (Int.le_refl 0))

theorem scanByte_inName {i : Nat} {c : UInt8} {st : HeaderScan} (state : st.hState_ = .key)
    (plain : c ≠ 58 ∧ c ≠ LF ∧ c ≠ CR) : scanByte outside str i c st = .ok st := by
  obtain ⟨colon, line, feed⟩ := plain
  unfold scanByte
  simp only [state]
  rw [if_neg colon, if_neg (not_or.mpr ⟨line, feed⟩)]

theorem scanFrom_name {cs : Bytes} {i : Nat} {st : HeaderScan} (going : st.notFinish = true)
    (state : st.hState_ = .key) (plain : ∀ c ∈ cs, c ≠ 58 ∧ c ≠ LF ∧ c ≠ CR) (rest : Bytes) :
    scanFrom outside str i (cs ++ rest) st = scanFrom outside str (i + cs.length) rest st := by
  apply scanFrom_stays going
  intro j inside
  exact scanByte_inName state (plain _ (List.getElem_mem inside))

/-- The bytes of a value are counted from its first one. -/
theorem scanByte_inValue {i : Nat} {c : UInt8} {st : HeaderScan} (state : st.hState_ = .value)
    (other : c ≠ CR) (near : ((i : Int) - st.value_start) % 2 ^ 64 ≤ 255) :
    scanByte outside str i c st = .ok st := by
  unfold scanByte
  simp only [state]
  rw [if_neg other, if_neg (Int.not_lt.mpr near)]

theorem scanFrom_value {cs : Bytes} {i : Nat} {st : HeaderScan} (going : st.notFinish = true)
    (state : st.hState_ = .value) (plain : CR ∉ cs)
    (short : ∀ j < cs.length, (((i + j : Nat) : Int) - st.value_start) % 2 ^ 64 ≤ 255)
    (rest : Bytes) :
    scanFrom outside str i (cs ++ rest) st = scanFrom outside str (i + cs.length) rest st := by
  apply scanFrom_stays going
  intro j inside
  have other : cs[j] ≠ CR := fun same => plain (same ▸ List.getElem_mem inside)
  exact scanByte_inValue state other (short j inside)

theorem exists_far {n i : Nat} {start : Int}
    (far : ¬∀ j < n, (((i + j : Nat) : Int) - start) % 2 ^ 64 ≤ 255) :
    ∃ j < n, 255 < (((i + j : Nat) : Int) - start) % 2 ^ 64 := by
  by_contra none
  exact far fun j inside => Int.not_lt.mp fun long => none ⟨j, inside, long⟩

/-- The scan stops at the first byte of a value that is too far from its beginning. -/
theorem scanFrom_value_error {cs : Bytes} {i : Nat} {st : HeaderScan} (going : st.notFinish = true)
    (state : st.hState_ = .value) (plain : CR ∉ cs) {j : Nat} (inside : j < cs.length)
    (long : 255 < (((i + j : Nat) : Int) - st.value_start) % 2 ^ 64) (rest : Bytes) :
    ∃ st', scanFrom outside str i (cs ++ rest) st = .error (.returns st') := by
  induction cs generalizing i j with
  | nil => simp at inside
  | cons c cs ih =>
    obtain ⟨other, plain⟩ := List.ne_and_not_mem_of_not_mem_cons plain
    by_cases here : 255 < ((i : Int) - st.value_start) % 2 ^ 64
    · refine ⟨st, scanFrom_cons_error _ going ?_⟩
      unfold scanByte
      simp only [state]
      rw [if_neg other.symm, if_pos here]
    · have next : scanByte outside str i c st = .ok st :=
        scanByte_inValue state other.symm (Int.not_lt.mp here)
      rw [List.cons_append, scanFrom_cons _ going next]
      -- The byte found is not this one.
      cases j with
      | zero => exact absurd long here
      | succ j =>
        apply ih plain (Nat.lt_of_succ_lt_succ inside)
        rwa [Nat.add_assoc, Nat.add_comm 1 j]

/-! ### Lines -/

/-- `name: value`, and the end of the line. -/
def headerLine (field : Bytes × Bytes) : Bytes := field.1 ++ 58 :: 32 :: (field.2 ++ CRLF)

theorem headerLine_length (field : Bytes × Bytes) :
    (headerLine field).length = field.1.length + field.2.length + 4 := by
  simp [headerLine, CRLF]
  omega

/-- What the states ask of the bytes of a line. Of the name's first byte `H_LF` asks only that it
is no CR, and of the value's first byte nothing is asked. -/
inductive Scannable : Bytes × Bytes → Prop
  | line {c b : UInt8} {name value : Bytes} : c ≠ CR →
      (∀ d ∈ name, d ≠ 58 ∧ d ≠ LF ∧ d ≠ CR) → CR ∉ value → Scannable (c :: name, b :: value)

/-- What the states ask of the places, where `i` is the first byte of the line. The distance of
two places is narrowed like they are. -/
structure Passing (i : Nat) (field : Bytes × Bytes) : Prop where
  key : 0 < toInt field.1.length
  short : ∀ j, 0 < j → j < field.2.length →
    (((i + field.1.length + 2 + j : Nat) : Int) - toInt (i + field.1.length + 2)) % 2 ^ 64 ≤ 255
  value : 0 < toInt field.2.length

/-- A line that comes through: behind the tests its ranges end behind their beginnings. -/
structure Measured (i : Nat) (field : Bytes × Bytes) : Prop extends Passing i field where
  keyOrder : toInt i ≤ toInt (i + field.1.length)
  valueOrder : toInt (i + field.1.length + 2) ≤ toInt (i + field.1.length + 2 + field.2.length)

namespace Measured

variable {i : Nat} {field : Bytes × Bytes}

theorem key_lt (measured : Measured i field) : toInt i < toInt (i + field.1.length) := by
  apply lt_of_narrow measured.keyOrder
  rw [narrow_distance]
  exact measured.key

theorem value_lt (measured : Measured i field) :
    toInt (i + field.1.length + 2) < toInt (i + field.1.length + 2 + field.2.length) := by
  apply lt_of_narrow measured.valueOrder
  rw [narrow_distance]
  exact measured.value

end Measured

/-- The name and the value that are cut out of the buffer for the line at `i`. -/
def slice (outside : Int → UInt8) (str : Bytes) (i : Nat) (field : Bytes × Bytes) :
    Bytes × Bytes :=
  (charRange outside str (toInt i) (toInt (i + field.1.length)),
    charRange outside str (toInt (i + field.1.length + 2))
      (toInt (i + field.1.length + 2 + field.2.length)))

/-- The scan behind the line at `i`. -/
def HeaderScan.stored (st : HeaderScan) (outside : Int → UInt8) (str : Bytes) (i : Nat)
    (field : Bytes × Bytes) : HeaderScan :=
  { st.assign (slice outside str i field) with
    hState_ := .lf
    key_start := toInt i
    key_end := toInt (i + field.1.length)
    value_start := toInt (i + field.1.length + 2)
    value_end := toInt (i + field.1.length + 2 + field.2.length)
    now_read_line_begin := toInt (i + field.1.length + 2 + field.2.length + 1) }

/-- The scan behind the colon at `e`. -/
def HeaderScan.named (st : HeaderScan) (e : Nat) : HeaderScan :=
  { st with hState_ := .colon, key_end := toInt e }

/-- The scan at the second byte of a value, behind a name that ends at `e`. -/
def HeaderScan.valued (st : HeaderScan) (e : Nat) : HeaderScan :=
  { st with hState_ := .value, key_end := toInt e, value_start := toInt (e + 2) }

/-- The scan behind a value that ends at `i`. -/
def HeaderScan.ended (st : HeaderScan) (i : Nat) : HeaderScan :=
  { st with hState_ := .cr, value_end := toInt i }

theorem scanByte_colon {e : Nat} {st : HeaderScan} (state : st.hState_ = .key) :
    scanByte outside str e 58 st = if narrow (toInt e - st.key_start) ≤ 0 then
      .error (.returns { st with key_end := toInt e }) else .ok (st.named e) := by
  unfold scanByte HeaderScan.named
  simp only [state, if_true]

theorem scanByte_blank {e : Nat} {st : HeaderScan} (state : st.hState_ = .colon) :
    scanByte outside str e 32 st = .ok { st with hState_ := .spacesAfterColon } := by
  unfold scanByte
  simp only [state, if_true]

theorem scanByte_first {e : Nat} {st : HeaderScan} (state : st.hState_ = .spacesAfterColon)
    (b : UInt8) : scanByte outside str e b st =
      .ok { st with hState_ := .value, value_start := toInt e } := by
  unfold scanByte
  simp only [state]

theorem scanByte_end {i : Nat} {st : HeaderScan} (state : st.hState_ = .value) :
    scanByte outside str i CR st = if narrow (toInt i - st.value_start) ≤ 0 then
      .error (.returns (st.ended i)) else .ok (st.ended i) := by
  unfold scanByte HeaderScan.ended
  simp only [state, if_true]

theorem scanByte_store {i : Nat} {st : HeaderScan} (state : st.hState_ = .cr)
    (key : st.key_start ≤ st.key_end) (value : st.value_start ≤ st.value_end) :
    scanByte outside str i LF st = .ok { st with
      hState_ := .lf
      headers_ := st.headers_.assign (charRange outside str st.key_start st.key_end)
        (charRange outside str st.value_start st.value_end)
      now_read_line_begin := toInt i } := by
  unfold scanByte
  simp only [state, if_true, Int.not_lt.mpr key, Int.not_lt.mpr value, or_self, if_false]

theorem scanByte_throws {i : Nat} {st : HeaderScan} (state : st.hState_ = .cr)
    (wrong : ¬(st.key_start ≤ st.key_end ∧ st.value_start ≤ st.value_end)) :
    scanByte outside str i LF st = .error .throws := by
  unfold scanByte
  simp only [state, if_true]
  rw [if_pos (by omega)]

theorem scanFrom_colon {e : Nat} {st : HeaderScan} (going : st.notFinish = true)
    (state : st.hState_ = .key) (key : 0 < narrow (toInt e - st.key_start)) (b : UInt8)
    (rest : Bytes) : scanFrom outside str e (58 :: 32 :: b :: rest) st =
      scanFrom outside str (e + 3) rest (st.valued e) := by
  have colon : scanByte outside str e 58 st = .ok (st.named e) := by
    rw [scanByte_colon state, if_neg (Int.not_le.mpr key)]
  have named : (st.named e).notFinish = true := going
  have spaces : { st.named e with hState_ := .spacesAfterColon }.notFinish = true := going
  rw [scanFrom_cons _ going colon, scanFrom_cons _ named (scanByte_blank rfl),
    scanFrom_cons _ spaces (scanByte_first rfl b)]
  rfl

/-- The rest of a line up to its LF, once its first byte has been taken. -/
theorem scanFrom_toEnd {i : Nat} {c b : UInt8} {name value : Bytes} {st : HeaderScan}
    (going : st.notFinish = true) (state : st.hState_ = .key) (here : st.key_start = toInt i)
    (plain : ∀ d ∈ name, d ≠ 58 ∧ d ≠ LF ∧ d ≠ CR) (whole : CR ∉ value)
    (passing : Passing i (c :: name, b :: value)) (rest : Bytes) :
    scanFrom outside str (i + 1) (name ++ 58 :: 32 :: b :: (value ++ (CRLF ++ rest))) st =
      scanFrom outside str (i + (c :: name).length + 2 + (b :: value).length + 1) (LF :: rest)
        ((st.valued (i + (c :: name).length)).ended
          (i + (c :: name).length + 2 + (b :: value).length)) := by
  obtain ⟨key, short, positive⟩ := passing
  dsimp only at key short positive
  have name_ := narrow_distance i (c :: name).length
  have value_ := narrow_distance (i + (c :: name).length + 2) (b :: value).length
  rw [← name_, ← here] at key
  rw [← value_] at positive
  generalize colon : i + (c :: name).length = e at key short positive
  generalize last : e + 2 + (b :: value).length = f at positive
  have first : i + 1 + name.length = e := by rw [← colon, List.length_cons]; omega
  have second : e + 3 + value.length = f := by rw [← last, List.length_cons]; omega
  have valued : (st.valued e).notFinish = true := going
  have near : ∀ j < value.length,
      (((e + 3 + j : Nat) : Int) - (st.valued e).value_start) % 2 ^ 64 ≤ 255 := by
    intro j inside
    -- The byte at `e + 3` is the second of the value, the first one is taken unseen.
    have step := short (j + 1) (Nat.succ_pos j) (Nat.succ_lt_succ inside)
    rwa [← Nat.add_assoc, Nat.add_right_comm _ j 1] at step
  have feed : scanByte outside str f CR (st.valued e) = .ok ((st.valued e).ended f) := by
    rw [scanByte_end rfl]
    exact if_neg (Int.not_le.mpr positive)
  calc scanFrom outside str (i + 1) (name ++ 58 :: 32 :: b :: (value ++ (CRLF ++ rest))) st
      = scanFrom outside str e (58 :: 32 :: b :: (value ++ (CRLF ++ rest))) st := by
        rw [scanFrom_name going state plain, first]
    _ = scanFrom outside str (e + 3) (value ++ (CRLF ++ rest)) (st.valued e) :=
        scanFrom_colon going state key b _
    _ = scanFrom outside str f (CR :: LF :: rest) (st.valued e) := by
        rw [← second]
        exact scanFrom_value valued rfl whole near _
    _ = scanFrom outside str (f + 1) (LF :: rest) ((st.valued e).ended f) :=
        scanFrom_cons _ valued feed

/-- The rest of a line that comes through. -/
theorem scanFrom_line {i : Nat} {c b : UInt8} {name value : Bytes} {st : HeaderScan}
    (going : st.notFinish = true) (state : st.hState_ = .key) (here : st.key_start = toInt i)
    (plain : ∀ d ∈ name, d ≠ 58 ∧ d ≠ LF ∧ d ≠ CR) (whole : CR ∉ value)
    (measured : Measured i (c :: name, b :: value)) (rest : Bytes) :
    scanFrom outside str (i + 1) (name ++ 58 :: 32 :: b :: (value ++ (CRLF ++ rest))) st =
      scanFrom outside str (i + (headerLine (c :: name, b :: value)).length) rest
        (st.stored outside str i (c :: name, b :: value)) := by
  obtain ⟨passing, key, value_⟩ := measured
  have behind : i + (c :: name).length + 2 + (b :: value).length + 1 + 1 =
      i + (headerLine (c :: name, b :: value)).length := by
    rw [headerLine_length]
    dsimp only
    omega
  rw [scanFrom_toEnd going state here plain whole passing, ← behind]
  unfold HeaderScan.stored slice
  dsimp only at key value_ ⊢
  rw [← here] at key ⊢
  refine scanFrom_cons rest ?_ (scanByte_store rfl key value_)
  exact going

/-- A line whose places do not do is not taken. -/
theorem scanFrom_line_error {i : Nat} {c b : UInt8} {name value : Bytes} {st : HeaderScan}
    (going : st.notFinish = true) (state : st.hState_ = .key) (here : st.key_start = toInt i)
    (plain : ∀ d ∈ name, d ≠ 58 ∧ d ≠ LF ∧ d ≠ CR) (whole : CR ∉ value)
    (wrong : ¬Passing i (c :: name, b :: value)) (rest : Bytes) :
    ∃ st', scanFrom outside str (i + 1)
      (name ++ 58 :: 32 :: b :: (value ++ (CRLF ++ rest))) st = .error (.returns st') := by
  have name_ := narrow_distance i (c :: name).length
  generalize colon : i + (c :: name).length = e at name_
  have first : i + 1 + name.length = e := by rw [← colon, List.length_cons]; omega
  rw [scanFrom_name going state plain, first]
  by_cases key : 0 < toInt (c :: name).length
  -- The three tests of a line come in this order: the name, each byte of the value, its end.
  · have passes : 0 < narrow (toInt e - st.key_start) := by rwa [here, name_]
    rw [scanFrom_colon going state passes]
    have valued : (st.valued e).notFinish = true := going
    by_cases near : ∀ j < value.length,
        (((e + 3 + j : Nat) : Int) - (st.valued e).value_start) % 2 ^ 64 ≤ 255
    · rw [scanFrom_value valued rfl whole near]
      refine ⟨(st.valued e).ended (e + 3 + value.length), ?_⟩
      apply scanFrom_cons_error (LF :: rest) valued
      rw [scanByte_end rfl]
      -- Only this test is left to fail.
      apply if_pos
      by_contra positive
      refine wrong ⟨key, fun j low high => ?_, ?_⟩
      · have step := near (j - 1) (by simp only [List.length_cons] at high; omega)
        rwa [show e + 3 + (j - 1) = e + 2 + j by omega, ← colon] at step
      · have last : e + 3 + value.length = e + 2 + (b :: value).length := by
          rw [List.length_cons]; omega
        have distance := Int.not_le.mp positive
        rwa [last, HeaderScan.valued, narrow_distance] at distance
    · obtain ⟨j, inside, long⟩ := exists_far near
      exact scanFrom_value_error valued rfl whole inside long _
  · refine ⟨{ st with key_end := toInt e }, ?_⟩
    apply scanFrom_cons_error _ going
    rw [scanByte_colon state, here, name_, if_pos (Int.not_lt.mp key)]

/-- A line that passes, and whose ranges end before they begin, is left by an exception. -/
theorem scanFrom_line_throws {i : Nat} {c b : UInt8} {name value : Bytes} {st : HeaderScan}
    (going : st.notFinish = true) (state : st.hState_ = .key) (here : st.key_start = toInt i)
    (plain : ∀ d ∈ name, d ≠ 58 ∧ d ≠ LF ∧ d ≠ CR) (whole : CR ∉ value)
    (passing : Passing i (c :: name, b :: value)) (wrong : ¬Measured i (c :: name, b :: value))
    (rest : Bytes) : scanFrom outside str (i + 1)
      (name ++ 58 :: 32 :: b :: (value ++ (CRLF ++ rest))) st = .error .throws := by
  rw [scanFrom_toEnd going state here plain whole passing]
  refine scanFrom_cons_error rest ?_ (scanByte_throws rfl ?_)
  · exact going
  · rintro ⟨key, value_⟩
    exact wrong ⟨passing, here ▸ key, value_⟩

/-! ### Blocks -/

/-- Behind a line, or before the first one when its first byte is met. -/
structure HeaderScan.BetweenLines (st : HeaderScan) : Prop where
  state : st.hState_ = .lf
  going : st.notFinish = true

theorem HeaderScan.BetweenLines.stored {st : HeaderScan} (between : st.BetweenLines) (i : Nat)
    (field : Bytes × Bytes) : (st.stored outside str i field).BetweenLines :=
  ⟨rfl, between.going⟩

/-- The first byte of the first line is met as any other would be. -/
theorem scanFrom_first {i : Nat} {c : UInt8} {st : HeaderScan} (going : st.notFinish = true)
    (start : st.hState_ = .start) (byte : c ≠ LF ∧ c ≠ CR) (cs : Bytes) :
    scanFrom outside str i (c :: cs) st =
      scanFrom outside str i (c :: cs)
        { st with hState_ := .lf, now_read_line_begin := toInt i } := by
  obtain ⟨line, feed⟩ := byte
  -- `H_START` and `H_LF` differ in what they do with a CR or LF only.
  have begins : scanByte outside str i c st = scanByte outside str i c
      { st with hState_ := .lf, now_read_line_begin := toInt i } := by
    unfold scanByte
    simp only [start, line, feed, or_self, if_false]
  rw [scanFrom, scanFrom, begins, going]
  simp only [if_true]

theorem scanByte_name {i : Nat} {c : UInt8} {st : HeaderScan} (between : st.BetweenLines)
    (byte : c ≠ CR) : scanByte outside str i c st =
      .ok { st with key_start := toInt i, hState_ := .key } := by
  unfold scanByte
  simp only [between.state]
  rw [if_neg byte]

theorem headerLine_cons (c b : UInt8) (name value rest : Bytes) :
    headerLine (c :: name, b :: value) ++ rest =
      c :: (name ++ 58 :: 32 :: b :: (value ++ (CRLF ++ rest))) := by
  simp only [headerLine, List.cons_append, List.append_assoc]

theorem scanFrom_field {i : Nat} {field : Bytes × Bytes} {st : HeaderScan}
    (between : st.BetweenLines) (scannable : Scannable field) (measured : Measured i field)
    (rest : Bytes) : scanFrom outside str i (headerLine field ++ rest) st =
      scanFrom outside str (i + (headerLine field).length) rest (st.stored outside str i field) := by
  obtain ⟨byte, plain, whole⟩ := scannable
  rename_i c b name value
  have named : { st with key_start := toInt i, hState_ := .key }.notFinish = true := between.going
  rw [headerLine_cons, scanFrom_cons _ between.going (scanByte_name between byte)]
  exact scanFrom_line named rfl rfl plain whole measured rest

theorem scanFrom_field_error {i : Nat} {field : Bytes × Bytes} {st : HeaderScan}
    (between : st.BetweenLines) (scannable : Scannable field) (wrong : ¬Passing i field)
    (rest : Bytes) :
    ∃ st', scanFrom outside str i (headerLine field ++ rest) st = .error (.returns st') := by
  obtain ⟨byte, plain, whole⟩ := scannable
  rw [headerLine_cons, scanFrom_cons _ between.going (scanByte_name between byte)]
  have named : { st with key_start := toInt i, hState_ := .key }.notFinish = true := between.going
  exact scanFrom_line_error named rfl rfl plain whole wrong rest

theorem scanFrom_field_throws {i : Nat} {field : Bytes × Bytes} {st : HeaderScan}
    (between : st.BetweenLines) (scannable : Scannable field) (passing : Passing i field)
    (wrong : ¬Measured i field) (rest : Bytes) :
    scanFrom outside str i (headerLine field ++ rest) st = .error .throws := by
  obtain ⟨byte, plain, whole⟩ := scannable
  rw [headerLine_cons, scanFrom_cons _ between.going (scanByte_name between byte)]
  have named : { st with key_start := toInt i, hState_ := .key }.notFinish = true := between.going
  exact scanFrom_line_throws named rfl rfl plain whole passing wrong rest

/-- The lines of a block, one behind the other. -/
def headerLines (fields : List (Bytes × Bytes)) : Bytes := fields.flatMap headerLine

theorem headerLines_cons (field : Bytes × Bytes) (fields : List (Bytes × Bytes)) (rest : Bytes) :
    headerLines (field :: fields) ++ rest =
      headerLine field ++ (headerLines fields ++ rest) := by
  simp only [headerLines, List.flatMap_cons, List.append_assoc]

theorem headerLines_eq_nil {fields : List (Bytes × Bytes)} : headerLines fields = [] ↔ fields = [] := by
  cases fields with
  | nil => simp [headerLines]
  | cons field fields => simp [headerLines, headerLine]

def AllMeasured : Nat → List (Bytes × Bytes) → Prop
  | _, [] => True
  | i, field :: fields => Measured i field ∧ AllMeasured (i + (headerLine field).length) fields

/-- Of the lines that do not come through, the first one does not pass. -/
def Refused : Nat → List (Bytes × Bytes) → Prop
  | _, [] => False
  | i, field :: fields =>
    ¬Passing i field ∨ Measured i field ∧ Refused (i + (headerLine field).length) fields

/-- What is cut out of the buffer for lines that begin at `i`. -/
def slices (outside : Int → UInt8) (str : Bytes) : Nat → List (Bytes × Bytes) →
    List (Bytes × Bytes)
  | _, [] => []
  | i, field :: fields =>
    slice outside str i field :: slices outside str (i + (headerLine field).length) fields

theorem headerLines_append (fields more : List (Bytes × Bytes)) :
    headerLines (fields ++ more) = headerLines fields ++ headerLines more := by
  simp [headerLines]

theorem allMeasured_append {i : Nat} {fields more : List (Bytes × Bytes)} :
    AllMeasured i (fields ++ more) ↔
      AllMeasured i fields ∧ AllMeasured (i + (headerLines fields).length) more := by
  induction fields generalizing i with
  | nil => simp [AllMeasured, headerLines]
  | cons field fields ih =>
    rw [List.cons_append, AllMeasured, AllMeasured, ih, and_assoc]
    simp [headerLines, Nat.add_assoc]

theorem slices_append (i : Nat) (fields more : List (Bytes × Bytes)) :
    slices outside str i (fields ++ more) =
      slices outside str i fields ++
        slices outside str (i + (headerLines fields).length) more := by
  induction fields generalizing i with
  | nil => simp [slices, headerLines]
  | cons field fields ih =>
    rw [List.cons_append, slices, slices, ih]
    simp [headerLines, Nat.add_assoc]

theorem scanFrom_lines {fields : List (Bytes × Bytes)} {i : Nat} {st : HeaderScan}
    (between : st.BetweenLines) (scannable : ∀ field ∈ fields, Scannable field)
    (measured : AllMeasured i fields) (rest : Bytes) :
    ∃ st', scanFrom outside str i (headerLines fields ++ rest) st =
        scanFrom outside str (i + (headerLines fields).length) rest st' ∧
      st'.BetweenLines ∧ st'.headers_ = st.headers_.assignAll (slices outside str i fields) := by
  induction fields generalizing i st with
  | nil => exact ⟨st, rfl, between, rfl⟩
  | cons field fields ih =>
    obtain ⟨here, later⟩ := measured
    -- The offsets of a line are left behind by it, and the next line sets them all again.
    have behind : (st.stored outside str i field).BetweenLines := between.stored i field
    obtain ⟨st', run, between', headers⟩ := ih behind
      (fun field member => scannable field (List.mem_cons_of_mem _ member)) later
    refine ⟨st', ?_, between', headers⟩
    rw [headerLines_cons,
      scanFrom_field between (scannable field (List.mem_cons_self ..)) here, run]
    congr 1
    simp only [headerLines, List.flatMap_cons, List.length_append]
    omega

theorem scanFrom_lines_error {fields : List (Bytes × Bytes)} {i : Nat} {st : HeaderScan}
    (between : st.BetweenLines) (scannable : ∀ field ∈ fields, Scannable field)
    (refused : Refused i fields) (rest : Bytes) :
    ∃ st', scanFrom outside str i (headerLines fields ++ rest) st = .error (.returns st') := by
  induction fields generalizing i st with
  | nil => cases refused
  | cons field fields ih =>
    have first := scannable field (List.mem_cons_self ..)
    rw [headerLines_cons]
    rcases refused with wrong | ⟨here, later⟩
    · exact scanFrom_field_error between first wrong _
    · rw [scanFrom_field between first here]
      exact ih (between.stored i field)
        (fun field member => scannable field (List.mem_cons_of_mem _ member)) later

theorem scanFrom_lines_throws {fields : List (Bytes × Bytes)} {i : Nat} {st : HeaderScan}
    (between : st.BetweenLines) (scannable : ∀ field ∈ fields, Scannable field)
    (wrong : ¬AllMeasured i fields) (passes : ¬Refused i fields) (rest : Bytes) :
    scanFrom outside str i (headerLines fields ++ rest) st = .error .throws := by
  induction fields generalizing i st with
  | nil => exact absurd trivial wrong
  | cons field fields ih =>
    have first := scannable field (List.mem_cons_self ..)
    obtain ⟨passing, later⟩ := not_or.mp passes
    rw [headerLines_cons]
    by_cases here : Measured i field
    · rw [scanFrom_field between first here]
      exact ih (between.stored i field)
        (fun field member => scannable field (List.mem_cons_of_mem _ member))
        (fun rest => wrong ⟨here, rest⟩) fun refused => later ⟨here, refused⟩
    · exact scanFrom_field_throws between first (not_not.mp passing) here _

/-- The blank line ends the scan, with the body behind it. -/
theorem scanFrom_blockEnd {i : Nat} {st : HeaderScan} (between : st.BetweenLines) (body : Bytes) :
    ∃ st', scanFrom outside str i (CRLF ++ body) st = .ok st' ∧ st'.hState_ = .endLf ∧
      st'.headers_ = st.headers_ ∧ st'.body_start = some (i + 2) := by
  have feed : scanByte outside str i CR st = .ok { st with hState_ := .endCr } := by
    unfold scanByte
    simp only [between.state, if_true]
  have line : scanByte outside str (i + 1) LF { st with hState_ := .endCr } =
      .ok { st with hState_ := .endLf, body_start := some (i + 2) } := by
    unfold scanByte
    simp only [if_true]
  -- The body is found where the blank line ends, whether or not a byte is behind it.
  have ends : { st with hState_ := .endCr }.notFinish = true := between.going
  change ∃ st', scanFrom outside str i (CR :: LF :: body) st = .ok st' ∧ _
  rw [scanFrom_cons _ between.going feed, scanFrom_cons _ ends line]
  have ended : { st with hState_ := .endLf, body_start := some (i + 2) }.notFinish = true :=
    between.going
  exact scanFrom_endLf outside str (i + 2) rfl ended rfl body

/-! ### The rest of a line -/

/-- The scan is in a line. -/
def HeaderScan.InLine (st : HeaderScan) : Prop :=
  st.hState_ = .key ∨ st.hState_ = .colon ∨ st.hState_ = .spacesAfterColon ∨ st.hState_ = .value ∨
    st.hState_ = .cr

theorem HeaderScan.InLine.ne_endLf {st : HeaderScan} (inside : st.InLine) :
    st.hState_ ≠ .endLf := by
  rcases inside with state | state | state | state | state
  all_goals rw [state]; decide

/-- How far the loop goes in the buffer. -/
def reach (outside : Int → UInt8) (str : Bytes) : Nat → Bytes → HeaderScan → Nat
  | i, [], _ => i
  | i, c :: cs, st =>
    if st.notFinish then
      match scanByte outside str i c st with
      | .error _ => i + 1
      | .ok st' => reach outside str (i + 1) cs st'
    else i

theorem reach_cons {i : Nat} {c : UInt8} {cs : Bytes} {st st' : HeaderScan}
    (going : st.notFinish = true) (next : scanByte outside str i c st = .ok st') :
    reach outside str i (c :: cs) st = reach outside str (i + 1) cs st' := by
  rw [reach, going, if_pos rfl, next]

theorem le_reach {i : Nat} {cs : Bytes} {st : HeaderScan} : i ≤ reach outside str i cs st := by
  induction cs generalizing i st with
  | nil => exact Nat.le_refl i
  | cons c cs ih =>
    rw [reach]
    repeat' split
    · exact Nat.le_succ i
    · exact Nat.le_trans (Nat.le_succ i) ih
    · exact Nat.le_refl i

theorem lt_reach_cons {i : Nat} {c : UInt8} {cs : Bytes} {st : HeaderScan}
    (going : st.notFinish = true) : i < reach outside str i (c :: cs) st := by
  rw [reach, going, if_pos rfl]
  split
  · exact Nat.lt_succ_self i
  · exact le_reach

theorem reach_le {i : Nat} {cs : Bytes} {st : HeaderScan} :
    reach outside str i cs st ≤ i + cs.length := by
  induction cs generalizing i st with
  | nil => exact Nat.le_refl i
  | cons c cs ih =>
    rw [reach, List.length_cons]
    repeat' split
    · omega
    · exact Nat.le_trans ih (by omega)
    · omega

/-- The scan comes to the end of the line that it is in. -/
inductive Passes (outside : Int → UInt8) (str : Bytes) : Nat → Bytes → HeaderScan → Prop
  | here {i : Nat} {rest : Bytes} {st : HeaderScan} :
      st.hState_ = .cr → Passes outside str i (LF :: rest) st
  | step {i : Nat} {c : UInt8} {rest : Bytes} {st st' : HeaderScan} : st.hState_ ≠ .cr →
      scanByte outside str i c st = .ok st' → Passes outside str (i + 1) rest st' →
      Passes outside str i (c :: rest) st

/-- In a line a step stays in it, and leaves the place where it began. -/
theorem scanByte_inLine {i : Nat} {c : UInt8} {st st' : HeaderScan} (inside : st.InLine)
    (before : st.hState_ ≠ .cr) (next : scanByte outside str i c st = .ok st') :
    st'.InLine ∧ st'.key_start = st.key_start ∧ st'.notFinish = st.notFinish := by
  unfold HeaderScan.InLine at inside ⊢
  unfold scanByte at next
  cases state : st.hState_ <;> simp only [state] at next inside before
  case cr => exact absurd rfl before
  case start => simp at inside
  case lf => simp at inside
  case endCr => simp at inside
  case endLf => simp at inside
  all_goals
    repeat' split at next
    all_goals cases next
    all_goals simp [state]

/-- Behind the CR of a value only an LF is taken. -/
theorem byte_of_cr {i : Nat} {c : UInt8} {st st' : HeaderScan} (state : st.hState_ = .cr)
    (next : scanByte outside str i c st = .ok st') : c = LF := by
  by_contra other
  unfold scanByte at next
  simp only [state, if_neg other] at next
  cases next

theorem Passes.cr {i : Nat} {cs : Bytes} {st : HeaderScan} (passes : Passes outside str i cs st)
    (state : st.hState_ = .cr) (going : st.notFinish = true) :
    ∃ rest, cs = LF :: rest ∧ i < reach outside str i cs st := by
  cases passes with
  | here => exact ⟨_, rfl, lt_reach_cons going⟩
  | step before => exact absurd state before

theorem Passes.value {i : Nat} {cs : Bytes} {st : HeaderScan} (passes : Passes outside str i cs st)
    (state : st.hState_ = .value) (going : st.notFinish = true) :
    ∃ value rest, cs = value ++ (CRLF ++ rest) ∧ CR ∉ value ∧
      (∀ j < value.length, (((i + j : Nat) : Int) - st.value_start) % 2 ^ 64 ≤ 255) ∧
      i + value.length + 1 < reach outside str i cs st := by
  induction passes with
  | here other => cases other.symm.trans state
  | @step i c rest st st' before next later ih =>
    have far : reach outside str i (c :: rest) st = _ := reach_cons going next
    unfold scanByte at next
    simp only [state] at next
    -- At the CR the value is over, and the LF must be behind it.
    by_cases feed : c = CR
    · rw [if_pos feed] at next
      split at next
      · cases next
      · cases next
        obtain ⟨rest, rfl, inside⟩ := later.cr rfl going
        exact ⟨[], rest, by rw [feed]; rfl, List.not_mem_nil, nofun, far ▸ inside⟩
    · rw [if_neg feed] at next
      split at next
      · cases next
      next near =>
        cases next
        obtain ⟨value, rest, rfl, whole, later, inside⟩ := ih state going
        refine ⟨c :: value, rest, rfl, List.not_mem_cons_of_ne_of_not_mem (Ne.symm feed) whole,
          ?_, ?_⟩
        · intro j inside
          cases j with
          | zero => exact Int.not_lt.mp near
          | succ j =>
            have step := later j (Nat.lt_of_succ_lt_succ inside)
            rwa [Nat.add_assoc, Nat.add_comm 1 j] at step
        · rw [far, List.length_cons]
          omega

theorem Passes.first {i : Nat} {cs : Bytes} {st : HeaderScan} (passes : Passes outside str i cs st)
    (state : st.hState_ = .spacesAfterColon) (going : st.notFinish = true) :
    ∃ b value rest, cs = b :: (value ++ (CRLF ++ rest)) ∧ CR ∉ value ∧
      (∀ j < value.length, (((i + 1 + j : Nat) : Int) - toInt i) % 2 ^ 64 ≤ 255) ∧
      i + value.length + 2 < reach outside str i cs st := by
  cases passes with
  | here other => cases other.symm.trans state
  | @step i c rest st st' before next later =>
    have far : reach outside str i (c :: rest) st = _ := reach_cons going next
    rw [scanByte_first state] at next
    cases next
    obtain ⟨value, rest, rfl, whole, near, inside⟩ := later.value rfl going
    exact ⟨c, value, rest, rfl, whole, near, by omega⟩

theorem Passes.blank {i : Nat} {cs : Bytes} {st : HeaderScan} (passes : Passes outside str i cs st)
    (state : st.hState_ = .colon) (going : st.notFinish = true) :
    ∃ b value rest, cs = 32 :: b :: (value ++ (CRLF ++ rest)) ∧ CR ∉ value ∧
      (∀ j < value.length, (((i + 2 + j : Nat) : Int) - toInt (i + 1)) % 2 ^ 64 ≤ 255) ∧
      i + value.length + 3 < reach outside str i cs st := by
  cases passes with
  | here other => cases other.symm.trans state
  | @step i c rest st st' before next later =>
    have far : reach outside str i (c :: rest) st = _ := reach_cons going next
    have byte : c = 32 := by
      by_contra other
      unfold scanByte at next
      simp only [state, if_neg other] at next
      cases next
    subst byte
    rw [scanByte_blank state] at next
    cases next
    obtain ⟨b, value, rest, rfl, whole, near, inside⟩ := later.first rfl going
    exact ⟨b, value, rest, rfl, whole, near, by omega⟩

theorem Passes.name {i : Nat} {cs : Bytes} {st : HeaderScan} (passes : Passes outside str i cs st)
    (state : st.hState_ = .key) (going : st.notFinish = true) :
    ∃ name b value rest, cs = name ++ 58 :: 32 :: b :: (value ++ (CRLF ++ rest)) ∧
      (∀ d ∈ name, d ≠ 58 ∧ d ≠ LF ∧ d ≠ CR) ∧ CR ∉ value ∧
      (∀ j < value.length, (((i + name.length + 3 + j : Nat) : Int) -
        toInt (i + name.length + 2)) % 2 ^ 64 ≤ 255) ∧
      i + name.length + value.length + 4 < reach outside str i cs st := by
  induction passes with
  | here other => cases other.symm.trans state
  | @step i c rest st st' before next later ih =>
    have far : reach outside str i (c :: rest) st = _ := reach_cons going next
    -- At the colon the name is over; any other byte belongs to it.
    by_cases colon : c = 58
    · subst colon
      rw [scanByte_colon state] at next
      split at next
      · cases next
      · cases next
        obtain ⟨b, value, rest, rfl, whole, near, inside⟩ := later.blank rfl going
        exact ⟨[], b, value, rest, rfl, nofun, whole, near, by rw [far, List.length_nil]; omega⟩
    · unfold scanByte at next
      simp only [state, if_neg colon] at next
      split at next
      · cases next
      next plain =>
        cases next
        obtain ⟨line, feed⟩ := not_or.mp plain
        obtain ⟨name, b, value, rest, rfl, all, whole, near, inside⟩ := ih state going
        have place : i + (c :: name).length = i + 1 + name.length := by
          rw [List.length_cons]
          omega
        refine ⟨c :: name, b, value, rest, rfl, ?_, whole, ?_, ?_⟩
        · intro d member
          rcases List.mem_cons.mp member with rfl | member
          · exact ⟨colon, line, feed⟩
          · exact all d member
        · rw [place]
          exact near
        · rw [place, far]
          exact inside

/-! ### What a scan that ends has read -/

/-- The scan comes to the end of the block. -/
def Ends (outside : Int → UInt8) (str : Bytes) (i : Nat) (cs : Bytes) (st : HeaderScan) : Prop :=
  ∃ st', scanFrom outside str i cs st = .ok st' ∧ st'.hState_ = .endLf

/-- Only the byte behind the block stops the scan. -/
theorem scanByte_going {i : Nat} {c : UInt8} {st st' : HeaderScan} (before : st.hState_ ≠ .endLf)
    (next : scanByte outside str i c st = .ok st') : st'.notFinish = st.notFinish := by
  unfold scanByte at next
  cases state : st.hState_ <;> simp only [state] at next
  case endLf => exact absurd state before
  all_goals
    repeat' split at next
    all_goals cases next
    all_goals rfl

/-- Before the end there is a further byte, which the scan takes. -/
theorem Ends.next {i : Nat} {cs : Bytes} {st : HeaderScan} (ends : Ends outside str i cs st)
    (going : st.notFinish = true) (before : st.hState_ ≠ .endLf) :
    ∃ c rest st', cs = c :: rest ∧ scanByte outside str i c st = .ok st' ∧
      st'.notFinish = true ∧ Ends outside str (i + 1) rest st' := by
  obtain ⟨last, run, ended⟩ := ends
  cases cs with
  | nil =>
    cases run
    exact absurd ended before
  | cons c rest =>
    cases next : scanByte outside str i c st with
    | error st' => rw [scanFrom_cons_error rest going next] at run; cases run
    | ok st' =>
      rw [scanFrom_cons rest going next] at run
      exact ⟨c, rest, st', rfl, next, (scanByte_going before next).trans going, last, run, ended⟩

theorem Ends.not_error {i : Nat} {cs : Bytes} {st : HeaderScan} {exit : HeaderExit}
    (ends : Ends outside str i cs st) : scanFrom outside str i cs st ≠ .error exit := by
  intro fails
  obtain ⟨last, run, _⟩ := ends
  cases fails.symm.trans run

/-- Where a list of bytes first meets a condition. -/
theorem exists_split (p : UInt8 → Prop) [DecidablePred p] (cs : Bytes) :
    ∃ before rest, cs = before ++ rest ∧ (∀ c ∈ before, p c) ∧ ∀ c, rest.head? = some c → ¬p c := by
  refine ⟨cs.takeWhile p, cs.dropWhile p, List.takeWhile_append_dropWhile.symm, ?_, ?_⟩
  · intro c member
    simpa using List.mem_takeWhile_imp member
  · intro c first
    have stops := List.head?_dropWhile_not p cs
    rw [first] at stops
    simpa using stops

/-- In a line, a scan that ends comes to the end of the line. -/
theorem Ends.passes {i : Nat} {cs : Bytes} {st : HeaderScan} (ends : Ends outside str i cs st)
    (going : st.notFinish = true) (inside : st.InLine) : Passes outside str i cs st := by
  induction cs generalizing i st with
  | nil =>
    obtain ⟨_, _, _, none, _⟩ := Ends.next ends going inside.ne_endLf
    cases none
  | cons c cs ih =>
    obtain ⟨_, _, st', same, next, going', later⟩ := Ends.next ends going inside.ne_endLf
    cases same
    by_cases last : st.hState_ = .cr
    · rw [byte_of_cr last next]
      exact .here last
    · exact .step last next (ih later going' (scanByte_inLine inside last next).1)

/-- From the end of a line the scan reads lines up to a blank one. -/
theorem Ends.lines {i : Nat} {cs : Bytes} {st : HeaderScan} (ends : Ends outside str i cs st)
    (between : st.BetweenLines) :
    ∃ fields body, cs = headerLines fields ++ (CRLF ++ body) ∧
      (∀ field ∈ fields, Scannable field) ∧ AllMeasured i fields := by
  -- By the length: a line of any length is taken off in front of what is left.
  induction size : cs.length using Nat.strong_induction_on generalizing i cs st with
  | _ size ih =>
    obtain ⟨c, rest, st₁, rfl, next, going₁, later⟩ :=
      Ends.next ends between.going (by rw [between.state]; decide)
    by_cases feed : c = CR
    · subst feed
      unfold scanByte at next
      simp only [between.state, if_true] at next
      cases next
      obtain ⟨c, rest, st₂, rfl, last, _, _⟩ := Ends.next later going₁ nofun
      have byte : c = LF := by
        by_contra other
        unfold scanByte at last
        simp only [if_neg other] at last
        cases last
      subst byte
      exact ⟨[], rest, rfl, nofun, trivial⟩
    · rw [scanByte_name between feed] at next
      cases next
      obtain ⟨name, b, value, rest, rfl, plain, whole, _⟩ := (Ends.passes later going₁ (.inl rfl)).name rfl going₁
      have scannable : Scannable (c :: name, b :: value) := .line feed plain whole
      have split := headerLine_cons c b name value rest
      rw [← split] at ends size ⊢
      -- A scan that ends has taken the line, so its places passed the tests.
      have measured : Measured i (c :: name, b :: value) := by
        by_contra wrong
        by_cases passing : Passing i (c :: name, b :: value)
        · exact Ends.not_error ends (scanFrom_field_throws between scannable passing wrong rest)
        · obtain ⟨_, fails⟩ := scanFrom_field_error between scannable passing rest
          exact Ends.not_error ends fails
      unfold Ends at ends
      rw [scanFrom_field between scannable measured] at ends
      obtain ⟨fields, body, rfl, all, places⟩ :=
        ih rest.length (by rw [← size, List.length_append, headerLine_length]; omega) ends
          (between.stored i _) rfl
      refine ⟨(c :: name, b :: value) :: fields, body, ?_, ?_, measured, places⟩
      · rw [headerLines_cons]
      · intro field member
        rcases List.mem_cons.mp member with rfl | member
        · exact scannable
        · exact all field member

end LightAgent

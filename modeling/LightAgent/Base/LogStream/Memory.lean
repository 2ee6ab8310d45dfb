import LightAgent.Base.LogStream
import LightAgent.Base.LogStream.Convert
import LightAgent.Library.Runs

/-!
# LogStream: fixed buffers in memory

`FixedBuffer` as an array and an offset into it, with the guard of `append` at the widths of the
machine. Writes outside of the array are undefined. A buffer that no write has left holds what the
`FixedBuffer` holds that only drops what does not fit.
-/
namespace LightAgent

open Library

def kMaxNumericSize : Nat := 32

/-- What is put into a buffer in one piece. -/
inductive Piece where
  /-- `append`, with `buf.length` for `len` -/
  | text (buf : Bytes)
  | integer (T : IntType) (value : T.Value)

inductive BufferOp where
  | insert (piece : Piece)
  | reset

namespace FixedBuffer

/-- The members of a `FixedBuffer`; `cur_` is counted from `data_`. -/
structure Memory where
  data_ : Bytes
  cur_ : Nat
  deriving DecidableEq

namespace Memory

def length (m : Memory) : Int := toInt m.cur_

/-- `avail()`; `end()` is `data_ + sizeof data_` -/
def avail (m : Memory) : Int := ((m.data_.length : Int) - m.cur_).bmod (2 ^ 32)

/-- `memcpy(cur_, buf, len)` -/
def memcpy (m : Memory) (buf : Bytes) : Option Memory :=
  if m.cur_ + buf.length ≤ m.data_.length then
    some { m with data_ := m.data_.take m.cur_ ++ buf ++ m.data_.drop (m.cur_ + buf.length) }
  else none

def add (m : Memory) (len : Nat) : Memory := { m with cur_ := m.cur_ + len }

def append (m : Memory) (buf : Bytes) : Option Memory :=
  if m.avail > toInt buf.length then (m.memcpy buf).map fun m => m.add buf.length
  else some m

/-- `LogStream::formatInteger`, on the memory from `current()` on -/
def formatInteger (m : Memory) {T : IntType} (v : T.Value) : Option Memory :=
  if m.avail ≥ kMaxNumericSize then
    (convert (m.data_.drop m.cur_) v).map fun (written, len) =>
      { m with data_ := m.data_.take m.cur_ ++ written }.add len
  else some m

def reset (m : Memory) : Memory := { m with cur_ := 0 }

def insert (m : Memory) : Piece → Option Memory
  | .text buf => m.append buf
  | .integer _ value => m.formatInteger value

def step (m : Memory) : BufferOp → Option Memory
  | .insert piece => m.insert piece
  | .reset => some m.reset

end Memory

/-- A buffer of that size; its constructor leaves `data_` as it finds it. -/
def memory (SIZE : Nat) : Machine Memory BufferOp :=
  ⟨fun m => m.data_.length = SIZE ∧ m.cur_ = 0, Memory.step⟩

end FixedBuffer

/-! ### What a buffer is for -/

namespace Piece

def bytes : Piece → Bytes
  | .text buf => buf
  | .integer _ value => signedDecimal value

/-- The room without which a piece is dropped. -/
def need : Piece → Nat
  | .text buf => buf.length + 1
  | .integer _ _ => kMaxNumericSize

theorem length_lt_need (piece : Piece) : piece.bytes.length < piece.need := by
  cases piece with
  | text buf => exact Nat.lt_succ_self _
  | integer T value =>
    have short := signedDecimal_le value
    simp only [bytes, need, kMaxNumericSize]
    omega

end Piece

namespace FixedBuffer

variable {SIZE : Nat}

def insert (buffer : FixedBuffer SIZE) (piece : Piece) : FixedBuffer SIZE :=
  if piece.need ≤ buffer.avail then buffer.append piece.bytes else buffer

def apply (buffer : FixedBuffer SIZE) : BufferOp → FixedBuffer SIZE
  | .insert piece => buffer.insert piece
  | .reset => buffer.reset

theorem length_lt (buffer : FixedBuffer SIZE) : buffer.length < SIZE := buffer.room

theorem insert_of_le {buffer : FixedBuffer SIZE} {piece : Piece} (room : piece.need ≤ buffer.avail) :
    buffer.insert piece = buffer.append piece.bytes := if_pos room

theorem insert_of_lt {buffer : FixedBuffer SIZE} {piece : Piece} (full : buffer.avail < piece.need) :
    buffer.insert piece = buffer := if_neg (Nat.not_le_of_lt full)

theorem insert_data (buffer : FixedBuffer SIZE) (piece : Piece) : (buffer.insert piece).data =
    if piece.need ≤ SIZE - buffer.data.length then buffer.data ++ piece.bytes else buffer.data := by
  unfold insert
  change (if piece.need ≤ SIZE - buffer.data.length then _ else buffer).data = _
  split
  next room =>
    have fits : buffer.avail > piece.bytes.length := Nat.lt_of_lt_of_le piece.length_lt_need room
    unfold data
    rw [append_pieces fits, List.flatten_append, List.flatten_singleton]
  next => rfl

/-- The memory holds the buffer. -/
structure Memory.Holds (m : Memory) (buffer : FixedBuffer SIZE) : Prop where
  size : m.data_.length = SIZE
  cur_ : m.cur_ = buffer.length
  data_ : m.data_.take m.cur_ = buffer.data

/-- The length of the text is narrowed to one that seems to fit. -/
def Memory.Wraps (m : Memory) : BufferOp → Prop
  | .insert (.text buf) => 2 ^ 31 ≤ buf.length ∧ toInt buf.length < m.avail
  | _ => False

namespace Memory.Holds

variable {m : Memory} {buffer : FixedBuffer SIZE}

theorem length (holds : m.Holds buffer) (small : SIZE < 2 ^ 31) : m.length = buffer.length := by
  unfold Memory.length
  rw [holds.cur_]
  exact toInt_of_lt (Nat.lt_trans buffer.length_lt small)

theorem avail (holds : m.Holds buffer) (small : SIZE < 2 ^ 31) : m.avail = buffer.avail := by
  have used := buffer.length_lt
  unfold Memory.avail FixedBuffer.avail
  rw [holds.size, holds.cur_, Int.bmod_eq_of_le (by omega) (by omega)]
  omega

/-- Bytes that fit are written behind the others. -/
theorem write (holds : m.Holds buffer) {buf : Bytes} (fits : buffer.avail > buf.length) (rest : Bytes)
    (size : buf.length + rest.length = m.data_.length - m.cur_) :
    Holds ({ m with data_ := m.data_.take m.cur_ ++ buf ++ rest }.add buf.length)
      (buffer.append buf) := by
  have before : (m.data_.take m.cur_).length = m.cur_ := by
    rw [holds.data_, holds.cur_]
    rfl
  have now : (buffer.append buf).data = buffer.data ++ buf := by
    unfold data
    rw [append_pieces fits, List.flatten_append, List.flatten_singleton]
  have used := buffer.length_lt
  have whole := holds.size
  have position := holds.cur_
  refine ⟨?_, ?_, ?_⟩
  · change (m.data_.take m.cur_ ++ buf ++ rest).length = SIZE
    rw [List.length_append, List.length_append, before]
    omega
  · change m.cur_ + buf.length = (buffer.append buf).data.length
    rw [now, List.length_append, holds.cur_]
    rfl
  · change (m.data_.take m.cur_ ++ buf ++ rest).take (m.cur_ + buf.length) = _
    rw [List.take_left' (by rw [List.length_append, before]), now, holds.data_]

theorem append (holds : m.Holds buffer) (small : SIZE < 2 ^ 31) {buf : Bytes}
    (sound : ¬m.Wraps (.insert (.text buf))) :
    ∃ m', m.append buf = some m' ∧ m'.Holds (buffer.insert (.text buf)) := by
  have available := holds.avail small
  have room : buffer.avail ≤ SIZE := Nat.sub_le SIZE buffer.length
  have position := holds.cur_
  have used := buffer.length_lt
  have size := holds.size
  unfold Memory.append
  by_cases fits : buffer.avail > buf.length
  · have exact_ : toInt buf.length = buf.length := toInt_of_lt (by omega)
    have inside : m.cur_ + buf.length ≤ m.data_.length := by
      unfold FixedBuffer.avail at fits
      omega
    rw [if_pos (by omega), memcpy, if_pos inside, @insert_of_le _ buffer (.text buf) fits]
    refine ⟨_, rfl, holds.write fits _ ?_⟩
    rw [List.length_drop]
    omega
  · -- What does not fit is dropped, since its length is not taken for a smaller one.
    have guard : ¬m.avail > toInt buf.length := by
      by_cases long : 2 ^ 31 ≤ buf.length
      · exact fun less => sound ⟨long, less⟩
      · rw [toInt_of_lt (Nat.lt_of_not_le long)]
        omega
    rw [if_neg guard, @insert_of_lt _ buffer (.text buf) (Nat.lt_succ_of_le (Nat.not_lt.mp fits))]
    exact ⟨m, rfl, holds⟩

theorem formatInteger (holds : m.Holds buffer) (small : SIZE < 2 ^ 31) {T : IntType}
    (value : T.Value) :
    ∃ m', m.formatInteger value = some m' ∧ m'.Holds (buffer.insert (.integer T value)) := by
  have available := holds.avail small
  have position := holds.cur_
  have used := buffer.length_lt
  have size := holds.size
  have short := signedDecimal_le value
  unfold Memory.formatInteger
  by_cases room : kMaxNumericSize ≤ buffer.avail
  · have fits : buffer.avail > (signedDecimal value).length :=
      Nat.lt_of_lt_of_le (Piece.length_lt_need (.integer T value)) room
    have enough : (signedDecimal value).length < (m.data_.drop m.cur_).length := by
      unfold FixedBuffer.avail at fits
      rw [List.length_drop]
      omega
    rw [if_pos (by omega), convert_eq value enough, @insert_of_le _ buffer (.integer T value) room]
    have written := holds.write fits
      (0 :: (m.data_.drop m.cur_).drop ((signedDecimal value).length + 1))
      (by
        rw [List.length_cons, List.length_drop]
        rw [List.length_drop] at enough ⊢
        omega)
    rw [List.append_assoc] at written
    exact ⟨_, rfl, written⟩
  · rw [if_neg (by omega), @insert_of_lt _ buffer (.integer T value) (Nat.lt_of_not_le room)]
    exact ⟨m, rfl, holds⟩

theorem reset (holds : m.Holds buffer) : m.reset.Holds buffer.reset := ⟨holds.size, rfl, rfl⟩

theorem step (holds : m.Holds buffer) (small : SIZE < 2 ^ 31) {op : BufferOp}
    (sound : ¬m.Wraps op) : ∃ m', m.step op = some m' ∧ m'.Holds (buffer.apply op) := by
  cases op with
  | insert piece =>
    cases piece with
    | text buf => exact holds.append small sound
    | integer T value => exact holds.formatInteger small value
  | reset => exact ⟨m.reset, rfl, holds.reset⟩

/-- A text that is taken for a shorter one is longer than the array. -/
theorem step_wraps (holds : m.Holds buffer) (small : SIZE < 2 ^ 31) {op : BufferOp}
    (wraps : m.Wraps op) : m.step op = none := by
  have size := holds.size
  cases op with
  | insert piece =>
    cases piece with
    | text buf =>
      obtain ⟨long, less⟩ := wraps
      have outside : ¬m.cur_ + buf.length ≤ m.data_.length := by omega
      simp only [Memory.step, Memory.insert, Memory.append]
      rw [if_pos less, memcpy, if_neg outside]
      rfl
    | integer T value => exact wraps.elim
  | reset => exact wraps.elim

end Memory.Holds

/-! ### Runs -/

/-- All writes of the run go to the array, and its length stays in bounds. -/
def Contained (SIZE : Nat) (m : Memory) (ops : List BufferOp) : Prop :=
  ∀ before, before <+: ops → ∃ m', (memory SIZE).exec m before = some m' ∧
    0 ≤ m'.length ∧ m'.length ≤ SIZE

/-- The run does not come to a text whose length is taken for one that fits. -/
def NeverWraps (SIZE : Nat) (m : Memory) (ops : List BufferOp) : Prop :=
  ∀ before op, before ++ [op] <+: ops → ∀ m', (memory SIZE).exec m before = some m' → ¬m'.Wraps op

variable {m : Memory}

theorem NeverWraps.of_prefix {m : Memory} {ops before : List BufferOp} (sound : NeverWraps SIZE m ops)
    (first : before <+: ops) : NeverWraps SIZE m before :=
  fun earlier op found => sound earlier op (found.trans first)

/-- The empty buffer. -/
def empty (positive : 0 < SIZE) : FixedBuffer SIZE := ⟨[], positive⟩

theorem holds_init (positive : 0 < SIZE) (fresh : (memory SIZE).init m) :
    m.Holds (empty positive) := by
  refine ⟨fresh.1, fresh.2, ?_⟩
  rw [fresh.2]
  rfl

/-- A run that is defined does to the memory what its operations do to the buffer. -/
theorem Memory.Holds.exec {buffer : FixedBuffer SIZE} (holds : m.Holds buffer)
    (small : SIZE < 2 ^ 31) {ops : List BufferOp} {m' : Memory}
    (run : (memory SIZE).exec m ops = some m') : m'.Holds (ops.foldl apply buffer) := by
  induction ops generalizing m buffer with
  | nil => cases run; exact holds
  | cons op ops ih =>
    obtain ⟨next, taken, rest⟩ := Machine.exec_step run
    by_cases wraps : m.Wraps op
    · cases (holds.step_wraps small wraps).symm.trans taken
    · obtain ⟨_, defined, holds⟩ := holds.step small wraps
      cases defined.symm.trans taken
      exact ih holds rest

theorem exec_defined (positive : 0 < SIZE) (small : SIZE < 2 ^ 31) (fresh : (memory SIZE).init m)
    {ops : List BufferOp} (sound : NeverWraps SIZE m ops) :
    ∃ m', (memory SIZE).exec m ops = some m' := by
  induction ops using List.reverseRecOn with
  | nil => exact ⟨m, rfl⟩
  | append_singleton ops op ih =>
    obtain ⟨m', run⟩ := ih (sound.of_prefix (List.prefix_append _ _))
    have holds := (holds_init positive fresh).exec small run
    obtain ⟨next, taken, _⟩ := holds.step small (sound ops op (List.prefix_refl _) m' run)
    refine ⟨next, ?_⟩
    rw [Machine.exec_append run, Machine.exec_cons taken]
    rfl

theorem neverWraps_of_exec (positive : 0 < SIZE) (small : SIZE < 2 ^ 31)
    (fresh : (memory SIZE).init m) {ops : List BufferOp} {end_ : Memory}
    (run : (memory SIZE).exec m ops = some end_) : NeverWraps SIZE m ops := by
  rintro before op ⟨rest, rfl⟩ m' first wraps
  have holds := (holds_init positive fresh).exec small first
  rw [List.append_assoc, Machine.exec_append first] at run
  obtain ⟨_, taken, _⟩ := Machine.exec_step run
  cases (holds.step_wraps small wraps).symm.trans taken

/-- A run of insertions and resets stays in the array if and only if it does not come to a text of
two gigabytes or more whose length, narrowed to an `int`, is less than the room there is. -/
theorem contained_iff_neverWraps (positive : 0 < SIZE) (small : SIZE < 2 ^ 31)
    (fresh : (memory SIZE).init m) (ops : List BufferOp) :
    Contained SIZE m ops ↔ NeverWraps SIZE m ops := by
  constructor
  · intro contained
    obtain ⟨m', run, _⟩ := contained ops (List.prefix_refl ops)
    exact neverWraps_of_exec positive small fresh run
  · intro sound before first
    obtain ⟨m', run⟩ := exec_defined positive small fresh (sound.of_prefix first)
    have holds := (holds_init positive fresh).exec small run
    have used := (before.foldl apply (empty positive)).length_lt
    refine ⟨m', run, ?_⟩
    rw [holds.length small]
    omega

/-- Texts below two gigabytes are safe. -/
theorem neverWraps_of_short {ops : List BufferOp}
    (short : ∀ buf, .insert (.text buf) ∈ ops → buf.length < 2 ^ 31) : NeverWraps SIZE m ops := by
  intro before op first m' _ wraps
  have member : op ∈ ops := first.subset (List.mem_append_right _ List.mem_cons_self)
  cases op with
  | insert piece =>
    cases piece with
    | text buf => exact absurd wraps.1 (Nat.not_le_of_lt (short buf member))
    | integer T value => exact wraps
  | reset => exact wraps

/-- An array of that size, as it may be found. -/
def zeros (SIZE : Nat) : Memory := ⟨List.replicate SIZE 0, 0⟩

theorem zeros_init (SIZE : Nat) : (memory SIZE).init (zeros SIZE) := ⟨List.length_replicate, rfl⟩

theorem contained_iff_neverWraps_small :
    Contained kSmallBuffer (zeros kSmallBuffer)
      [.insert (.text [97, 98]), .insert (.integer .long ⟨-2 ^ 63, by decide⟩), .reset] := by
  refine (contained_iff_neverWraps (by decide) (by decide) (zeros_init kSmallBuffer) _).mpr
    (neverWraps_of_short fun buf member => ?_)
  rcases List.mem_cons.mp member with is | member
  · cases is
    decide
  · simp at member

/-- Two gigabytes are copied into an array of 4000 bytes. -/
theorem long_text_overflows : ¬Contained kSmallBuffer (zeros kSmallBuffer)
    [.insert (.text (List.replicate (2 ^ 31) 0))] := by
  intro contained
  have wraps : (zeros kSmallBuffer).Wraps (.insert (.text (List.replicate (2 ^ 31) 0))) := by
    simp only [Memory.Wraps, zeros, Memory.avail, List.length_replicate]
    decide
  obtain ⟨m, run, _⟩ := contained _ (List.prefix_refl _)
  exact neverWraps_of_exec (by decide) (by decide) (zeros_init kSmallBuffer) run [] _
    (List.prefix_refl _) (zeros kSmallBuffer) rfl wraps

/-! ### Integers -/

/-- For every value of every type `convert` leaves its canonical numeral with a NUL behind it in
21 bytes at most, and `formatInteger` is defined for every buffer. -/
theorem formatInteger_canonical {T : IntType} (value : T.Value) :
    Canonical (signedDecimal value) value ∧ (signedDecimal value).length + 1 ≤ 21 ∧
      (∀ buf : Bytes, 21 ≤ buf.length → convert buf value =
        some (signedDecimal value ++ 0 :: buf.drop ((signedDecimal value).length + 1),
          (signedDecimal value).length)) ∧
      ∀ m : Memory, m.data_.length < 2 ^ 31 → m.cur_ ≤ m.data_.length →
        ∃ m', m.formatInteger value = some m' := by
  have short := signedDecimal_le value
  refine ⟨signedDecimal_canonical value, Nat.succ_le_succ short, fun buf room => ?_, ?_⟩
  · exact convert_eq value (by omega)
  · intro m small inside
    unfold Memory.formatInteger
    split
    next room =>
      have enough : (signedDecimal value).length < (m.data_.drop m.cur_).length := by
        unfold Memory.avail kMaxNumericSize at room
        rw [Int.bmod_eq_of_le (by omega) (by omega)] at room
        rw [List.length_drop]
        omega
      rw [convert_eq value enough]
      exact ⟨_, rfl⟩
    next => exact ⟨m, rfl⟩

theorem formatInteger_canonical_least :
    @convert .long (List.replicate 22 255) ⟨-2 ^ 63, by decide⟩ =
      some (bytes "-9223372036854775808" ++ [0, 255], 20) := by
  have least := (@formatInteger_canonical .long ⟨-2 ^ 63, by decide⟩).2.2.1
  rw [least _ (by decide)]
  decide

end FixedBuffer

end LightAgent

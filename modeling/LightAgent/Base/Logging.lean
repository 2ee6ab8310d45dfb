import LightAgent.Base.LogStream.Memory

/-!
# Logging: one statement, one record

What a `LOG` statement streams into the small buffer of its `Logger`, from the time that the
constructor puts in front to the newline with which the destructor closes the record.
-/
namespace LightAgent

open Library FixedBuffer

/-- The characters that a `const char*` points to. -/
def cString (str : Bytes) : Bytes := str.takeWhile (· ≠ 0)

/-- What is streamed, by the overload of `LogStream::operator<<`. -/
inductive Operand where
  | string (v : Bytes)
  /-- `none` is the null pointer -/
  | pointer (str : Option Bytes)
  | char (v : UInt8)
  | bool (v : Bool)
  | short (v : { v : Int // -2 ^ 15 ≤ v ∧ v < 2 ^ 15 })
  | unsignedShort (v : { v : Int // 0 ≤ v ∧ v < 2 ^ 16 })
  | integer (T : IntType) (v : T.Value)

theorem int_fits {v : Int} (short : -2 ^ 15 ≤ v ∧ v < 2 ^ 15) : IntType.int.Fits v := by
  simp only [IntType.Fits, IntType.min, IntType.max]
  omega

theorem unsignedInt_fits {v : Int} (short : 0 ≤ v ∧ v < 2 ^ 16) : IntType.unsignedInt.Fits v := by
  simp only [IntType.Fits, IntType.min, IntType.max]
  omega

/-- `LogStream::operator<<` -/
def Operand.piece : Operand → Piece
  | .string v => .text v
  | .pointer (some str) => .text (cString str)
  | .pointer none => .text (bytes "(null)")
  | .char v => .text [v]
  | .bool v => .text (if v then bytes "1" else bytes "0")
  -- `static_cast<int>` and `static_cast<unsigned int>`
  | .short v => .integer .int ⟨v, int_fits v.property⟩
  | .unsignedShort v => .integer .unsignedInt ⟨v, unsignedInt_fits v.property⟩
  | .integer T v => .integer T v

/-- What stands in a `LOG` statement and around it: the time as `strftime` writes it, the operands,
`__FILE__` and `__LINE__`. -/
structure Statement where
  str_t : Bytes
  operands : List Operand
  fileName : Bytes
  line : IntType.int.Value

namespace Statement

/-- All that is streamed but the newline. -/
def body (s : Statement) : List Operand :=
  .pointer (some s.str_t) :: s.operands ++
    -- `~Logger`, with the `basename_` that the constructor has copied
    [.pointer (some (bytes " -- ")), .string (cString s.fileName), .char 58, .integer .int s.line]

def streamed (s : Statement) : List Operand := s.body ++ [.char 10]

end Statement

/-- Streaming in turn. -/
def stream (buffer_ : Memory) (operands : List Operand) : Option Memory :=
  (memory kSmallBuffer).exec buffer_ (operands.map fun operand => .insert operand.piece)

/-- What `~Logger` passes to `output`, with `buffer_` as it is found by the constructor -/
def logged (buffer_ : Memory) (s : Statement) : Option Bytes :=
  (stream buffer_ s.streamed).map fun m => m.data_.take m.length.toNat

/-! ### What is kept -/

/-- A piece is kept as a whole where there is room for it. -/
def keep (out : Bytes) (piece : Piece) : Bytes :=
  if piece.need ≤ kSmallBuffer - out.length then out ++ piece.bytes else out

/-- What is kept of the operands. -/
def kept (operands : List Operand) : Bytes :=
  operands.foldl (fun out operand => keep out operand.piece) []

/-- No text of two gigabytes or more has a length that, narrowed, is less than the room there is
behind what is kept of the operands before it. -/
def NoneWraps (operands : List Operand) : Prop :=
  ∀ before operand after buf, operands = before ++ operand :: after → operand.piece = .text buf →
    2 ^ 31 ≤ buf.length → ((kSmallBuffer - (kept before).length : Nat) : Int) ≤ toInt buf.length

theorem kept_append (operands : List Operand) (last : Operand) :
    kept (operands ++ [last]) = keep (kept operands) last.piece := by
  simp [kept, List.foldl_append]

/-- The buffer that a run leaves holds what is kept. -/
theorem foldl_insert_data (operands : List Operand) (buffer : FixedBuffer kSmallBuffer) :
    ((operands.map fun operand => BufferOp.insert operand.piece).foldl apply buffer).data =
      operands.foldl (fun out operand => keep out operand.piece) buffer.data := by
  induction operands generalizing buffer with
  | nil => rfl
  | cons operand operands ih =>
    rw [List.map_cons, List.foldl_cons, List.foldl_cons, ih]
    exact congrArg (List.foldl _ · operands) (insert_data buffer operand.piece)

section

variable {buffer_ m : Memory}

theorem stream_holds (fresh : (memory kSmallBuffer).init buffer_) {operands : List Operand}
    (run : stream buffer_ operands = some m) :
    ∃ line : LogLine, m.Holds line ∧ line.data = kept operands :=
  ⟨_, (holds_init (by decide) fresh).exec (by decide) run, foldl_insert_data operands _⟩

theorem stream_avail (fresh : (memory kSmallBuffer).init buffer_) {operands : List Operand}
    (run : stream buffer_ operands = some m) :
    m.avail = (kSmallBuffer - (kept operands).length : Nat) := by
  obtain ⟨line, holds, data⟩ := stream_holds fresh run
  rw [holds.avail (by decide), ← data]
  rfl

theorem kept_length_lt (operands : List Operand) : (kept operands).length < kSmallBuffer := by
  have room := ((operands.map fun operand => BufferOp.insert operand.piece).foldl apply
    (empty (by decide : 0 < kSmallBuffer))).length_lt
  unfold FixedBuffer.length at room
  rw [foldl_insert_data] at room
  exact room

/-- The operands can be streamed where none is taken for a shorter one. -/
theorem stream_iff (fresh : (memory kSmallBuffer).init buffer_) (operands : List Operand) :
    (∃ m, stream buffer_ operands = some m) ↔ NoneWraps operands := by
  constructor
  · intro ⟨m, run⟩ before operand after buf split text long
    have sound := neverWraps_of_exec (by decide) (by decide) fresh run
    have first : before.map (fun operand => BufferOp.insert operand.piece) ++
        [.insert operand.piece] <+: operands.map fun operand => .insert operand.piece := by
      rw [split, List.map_append, List.map_cons]
      exact ⟨after.map fun operand => .insert operand.piece, by simp⟩
    obtain ⟨m', front⟩ := exec_defined (by decide) (by decide) fresh
      (sound.of_prefix ((List.prefix_append _ _).trans first))
    have guard := sound _ _ first m' front
    rw [text] at guard
    rw [← stream_avail fresh front]
    exact Int.not_lt.mp fun less => guard ⟨long, less⟩
  · intro sound
    refine exec_defined (by decide) (by decide) fresh ?_
    rintro before op ⟨rest, split⟩ m' run wraps
    rw [List.append_assoc, List.singleton_append] at split
    obtain ⟨front, others, rfl, rfl, tail⟩ := List.map_eq_append_iff.mp split.symm
    obtain ⟨operand, after, rfl, rfl, _⟩ := List.map_eq_cons_iff.mp tail
    have avail := stream_avail fresh run
    cases text : operand.piece with
    | text buf =>
      rw [text] at wraps
      have guard := sound front operand after buf rfl text wraps.1
      have less := wraps.2
      omega
    | integer T value =>
      rw [text] at wraps
      exact wraps

theorem logged_eq (fresh : (memory kSmallBuffer).init buffer_) {s : Statement} :
    logged buffer_ s = (stream buffer_ s.streamed).map fun _ => kept s.streamed := by
  unfold logged
  cases run : stream buffer_ s.streamed with
  | none => rw [Option.map_none, Option.map_none]
  | some m =>
    obtain ⟨line, holds, data⟩ := stream_holds fresh run
    have length := holds.length (by decide)
    rw [Option.map_some, Option.map_some, length, ← data, ← holds.data_, holds.cur_,
      Int.toNat_natCast]

theorem noneWraps_of_short {operands : List Operand}
    (short : ∀ operand ∈ operands, operand.piece.bytes.length < 2 ^ 31) : NoneWraps operands := by
  rintro before operand after buf rfl text long
  have bound := short operand (by simp)
  rw [text] at bound
  exact absurd bound (Nat.not_lt.mpr long)

end

/-! ### The newline -/

/-- The newline is dropped where one byte is left. -/
theorem kept_newline (operands : List Operand) : (kept (operands ++ [.char 10])).getLast? = some 10 ↔
    ((kept operands).length = 3999 → (kept operands).getLast? = some 10) := by
  have room := kept_length_lt operands
  rw [kept_append]
  unfold keep
  change (kept operands).length < 4000 at room
  change (if 1 + 1 ≤ 4000 - (kept operands).length then kept operands ++ [10] else
    kept operands).getLast? = some 10 ↔ _
  split
  next => simp; omega
  next full =>
    have last : (kept operands).length = 3999 := by omega
    simp [last]

/-- The record of a statement ends with a newline if and only if no text in it is taken for a
shorter one, and what is kept before the newline either leaves room for it or, filling the buffer
up to one byte, ends with a newline itself. -/
theorem record_ends_iff {buffer_ : Memory} (fresh : (memory kSmallBuffer).init buffer_)
    (s : Statement) :
    (∃ record, logged buffer_ s = some record ∧ record.getLast? = some 10) ↔
      NoneWraps s.streamed ∧
        ((kept s.body).length = 3999 → (kept s.body).getLast? = some 10) := by
  rw [← stream_iff fresh, ← kept_newline, logged_eq fresh]
  constructor
  · rintro ⟨record, passed, ends⟩
    obtain ⟨m, run, rfl⟩ := Option.map_eq_some_iff.mp passed
    exact ⟨⟨m, run⟩, ends⟩
  · rintro ⟨⟨m, run⟩, ends⟩
    exact ⟨_, Option.map_eq_some_iff.mpr ⟨m, run, rfl⟩, ends⟩

def noon : Bytes := bytes "2024-05-01 12:00:00\n"

/-- A statement in line 42 of Main.cpp. -/
def inMain (operands : List Operand) : Statement where
  str_t := noon
  operands := operands
  fileName := bytes "Main.cpp"
  line := ⟨42, by decide⟩

def portStatement : Statement :=
  inMain [.string (bytes "port "), .integer .unsignedInt ⟨80, by decide⟩]

theorem record_ends_iff_port : ∃ record, logged (zeros kSmallBuffer) portStatement = some record ∧
    record.getLast? = some 10 := by
  have short : portStatement.streamed.all
      (fun operand => decide (operand.piece.bytes.length < 2 ^ 31)) = true := by decide
  refine (record_ends_iff (zeros_init kSmallBuffer) _).mpr ⟨noneWraps_of_short ?_, by decide⟩
  exact fun operand member => of_decide_eq_true (List.all_eq_true.mp short operand member)

/-- What finds no room behind 3999 bytes. -/
theorem keep_full {out : Bytes} (full : out.length = 3999) (operand : Operand)
    (long : 1 < operand.piece.need) : keep out operand.piece = out := by
  unfold keep kSmallBuffer
  rw [full]
  exact if_neg (Nat.not_le_of_lt long)

def fullStatement : Statement := inMain [.string (List.replicate 3979 97)]

theorem fullStatement_kept : (kept fullStatement.body).length = 3999 ∧
    (kept fullStatement.body).getLast? = some 97 := by
  have front : noon.length = 20 := by decide
  have time : keep [] (Operand.pointer (some noon)).piece = noon := by decide
  have text : keep noon (Operand.string (List.replicate 3979 97)).piece =
      noon ++ List.replicate 3979 97 := by
    refine if_pos ?_
    change (List.replicate 3979 _).length + 1 ≤ _
    rw [front, List.length_replicate]
    decide
  have full : (noon ++ List.replicate 3979 97).length = 3999 := by
    rw [List.length_append, front, List.length_replicate]
  have body : kept fullStatement.body = noon ++ List.replicate 3979 97 := by
    simp only [kept, fullStatement, inMain, Statement.body, List.cons_append, List.nil_append,
      List.foldl_cons, List.foldl_nil, time, text]
    rw [keep_full full _ (by decide), keep_full full _ (by decide), keep_full full _ (by decide),
      keep_full full _ (by decide)]
  have some_ : List.replicate 3979 (97 : UInt8) ≠ [] :=
    List.ne_nil_of_length_pos (by rw [List.length_replicate]; decide)
  rw [body, List.getLast?_append_of_ne_nil _ some_, List.getLast?_replicate]
  exact ⟨full, rfl⟩

/-- A text that fills the buffer up to one byte takes the place of the newline. -/
theorem full_record_runs_on : ¬∃ record,
    logged (zeros kSmallBuffer) fullStatement = some record ∧ record.getLast? = some 10 := by
  rintro ⟨record, passed, ends⟩
  rw [logged_eq (zeros_init kSmallBuffer)] at passed
  obtain ⟨m, run, rfl⟩ := Option.map_eq_some_iff.mp passed
  have last := (kept_newline _).mp ends fullStatement_kept.1
  rw [fullStatement_kept.2] at last
  cases last

end LightAgent

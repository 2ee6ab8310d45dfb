import LightAgent.Library.Bytes

/-!
# LogStream: fixed buffers

`FixedBuffer` of LogStream.h. A line of the log is what one `Logger` has put into the
small buffer of its stream, so its length is below `kSmallBuffer`.
-/
namespace LightAgent

open Library

def kSmallBuffer : Nat := 4000
def kLargeBuffer : Nat := 4000 * 1000

/-- The pieces copied in since the last `reset`. `append` always leaves room. -/
structure FixedBuffer (SIZE : Nat) where
  pieces : List Bytes
  room : pieces.flatten.length < SIZE
  deriving DecidableEq

namespace FixedBuffer

variable {SIZE : Nat}

/-- `data()`, up to `cur_` -/
def data (buffer : FixedBuffer SIZE) : Bytes := buffer.pieces.flatten

def length (buffer : FixedBuffer SIZE) : Nat := buffer.data.length

def avail (buffer : FixedBuffer SIZE) : Nat := SIZE - buffer.length

/-- `FixedBuffer::append`, which drops what does not fit -/
def append (buffer : FixedBuffer SIZE) (buf : Bytes) : FixedBuffer SIZE :=
  if fits : buffer.avail > buf.length then
    { pieces := buffer.pieces ++ [buf]
      room := by
        have used : buffer.pieces.flatten.length = buffer.length := rfl
        unfold avail at fits
        rw [List.flatten_append, List.length_append, List.flatten_singleton, used]
        omega }
  else buffer

/-- `FixedBuffer::reset` -/
def reset (buffer : FixedBuffer SIZE) : FixedBuffer SIZE where
  pieces := []
  room := Nat.zero_lt_of_lt buffer.room

theorem append_pieces {buffer : FixedBuffer SIZE} {buf : Bytes}
    (fits : buffer.avail > buf.length) : (buffer.append buf).pieces = buffer.pieces ++ [buf] := by
  unfold append
  rw [dif_pos fits]

/-- An empty buffer takes every shorter piece. -/
theorem avail_empty {buffer : FixedBuffer SIZE} (empty : buffer.pieces = []) {buf : Bytes}
    (short : buf.length < SIZE) : buffer.avail > buf.length := by
  unfold avail length data
  rw [empty]
  exact short

end FixedBuffer

/-- A line as `Logger` hands it to `AsyncLogging::append`. -/
abbrev LogLine := FixedBuffer kSmallBuffer

theorem LogLine.short (line : LogLine) : line.data.length < kLargeBuffer :=
  Nat.lt_trans line.room (by decide)

end LightAgent

import LightAgent.Library.Bytes

/-!
# Util: the socket loops

`readn` and `writen` run against the results the kernel gives to the successive
`read` and `write` calls. A list of results that is used up stands for a socket
with nothing more to read, and with room for everything still to be written.
-/
namespace LightAgent

open Library

/-- Result of one `read` into the 4096-byte buffer. Data is never empty: an empty
read is the end of the stream. -/
inductive ReadResult where
  | data (first : UInt8) (rest : Bytes)
  | eof
  | eintr
  | eagain
  | error
  deriving DecidableEq, Repr

/-- Result of one `write`; the kernel takes at most what it was offered. -/
inductive WriteResult where
  | accepted (n : Nat)
  | eintr
  | eagain
  | error
  deriving DecidableEq, Repr

/-- What `readn` leaves: its return value (`none` for -1), the buffer, the `zero`
flag and the results not used. -/
structure ReadnResult where
  ret : Option Nat
  inBuffer : Bytes
  zero : Bool
  rest : List ReadResult
  deriving DecidableEq, Repr

/-- The loop of `readn(int, std::string &, bool &)` once `readSum` bytes have come. -/
def readnFrom (inBuffer : Bytes) (readSum : Nat) : List ReadResult → ReadnResult
  | [] => ⟨some readSum, inBuffer, false, []⟩
  | .eagain :: rs => ⟨some readSum, inBuffer, false, rs⟩
  | .eintr :: rs => readnFrom inBuffer readSum rs
  | .error :: rs => ⟨none, inBuffer, false, rs⟩
  | .eof :: rs => ⟨some readSum, inBuffer, true, rs⟩
  | .data b bs :: rs => readnFrom (inBuffer ++ b :: bs) (readSum + (b :: bs).length) rs

def readn (inBuffer : Bytes) (rs : List ReadResult) : ReadnResult := readnFrom inBuffer 0 rs

/-- What the write loop leaves: whether it ended without a hard error, the bytes the
socket took and the results not used. -/
structure WriteLoop where
  ok : Bool
  accepted : Bytes
  rest : List WriteResult
  deriving DecidableEq, Repr

/-- The loop shared by both `writen` functions, `taken` being what went out already. -/
def writeFrom (taken left : Bytes) : List WriteResult → WriteLoop
  | [] => ⟨true, taken ++ left, []⟩
  | w :: ws =>
    if left = [] then ⟨true, taken, w :: ws⟩
    else match w with
      | .accepted n => writeFrom (taken ++ left.take n) (left.drop n) ws
      | .eintr => writeFrom taken left ws
      | .eagain => ⟨true, taken, ws⟩
      | .error => ⟨false, taken, ws⟩

/-- `writen(int, void *, size_t)`. -/
def writenRaw (buff : Bytes) (ws : List WriteResult) : WriteLoop := writeFrom [] buff ws

/-- What `writen(int, std::string &)` leaves; `ret` is `none` for -1. -/
structure WritenResult where
  ret : Option Nat
  sbuff : Bytes
  accepted : Bytes
  rest : List WriteResult
  deriving DecidableEq, Repr

/-- `writen(int, std::string &)`. After a hard error the string is not trimmed. The
test for a complete write compares the sum with the size narrowed to `int`. -/
def writen (sbuff : Bytes) (ws : List WriteResult) : WritenResult :=
  let loop := writeFrom [] sbuff ws
  let writeSum := loop.accepted.length
  if loop.ok then
    ⟨some writeSum, if (writeSum : Int) = toInt sbuff.length then [] else sbuff.drop writeSum,
      loop.accepted, loop.rest⟩
  else ⟨none, sbuff, loop.accepted, loop.rest⟩

/-! ### Reading -/

/-- The bytes a run of reads brings while the peer stays there, cut and interrupted in
any way; `none` when the stream ends, fails or pauses on the way. -/
def delivered : List ReadResult → Option Bytes
  | [] => some []
  | [.eagain] => some []
  | .eintr :: rs => delivered rs
  | .data b bs :: rs => (delivered rs).map (b :: bs ++ ·)
  | _ => none

theorem readnFrom_delivered {rs : List ReadResult} {s : Bytes} (whole : delivered rs = some s)
    (inBuffer : Bytes) (readSum : Nat) :
    readnFrom inBuffer readSum rs = ⟨some (readSum + s.length), inBuffer ++ s, false, []⟩ := by
  induction rs using delivered.induct generalizing s inBuffer readSum with
  | case1 => cases whole; simp [readnFrom]
  | case2 => cases whole; simp [readnFrom]
  | case3 rs ih => exact ih whole inBuffer readSum
  -- The bytes of this read come before those of the others.
  | case4 b bs rs ih =>
    obtain ⟨tail, htail, rfl⟩ := Option.map_eq_some_iff.mp whole
    rw [readnFrom, ih htail]
    simp [Nat.add_assoc, Nat.add_comm, Nat.add_left_comm]
  | case5 rs h1 h2 h3 h4 =>
    unfold delivered at whole
    split at whole <;> simp_all

theorem readn_delivered {rs : List ReadResult} {s : Bytes} (whole : delivered rs = some s)
    (inBuffer : Bytes) : readn inBuffer rs = ⟨some s.length, inBuffer ++ s, false, []⟩ := by
  simpa [readn] using readnFrom_delivered whole inBuffer 0

/-- The bytes a run of reads brings up to the end of the stream. -/
def deliveredToEnd : List ReadResult → Option Bytes
  | .eof :: _ => some []
  | .eintr :: rs => deliveredToEnd rs
  | .data b bs :: rs => (deliveredToEnd rs).map (b :: bs ++ ·)
  | _ => none

theorem readnFrom_deliveredToEnd {rs : List ReadResult} {s : Bytes}
    (whole : deliveredToEnd rs = some s) (inBuffer : Bytes) (readSum : Nat) :
    ∃ rest, readnFrom inBuffer readSum rs =
      ⟨some (readSum + s.length), inBuffer ++ s, true, rest⟩ := by
  induction rs using deliveredToEnd.induct generalizing s inBuffer readSum with
  | case1 rs => cases whole; exact ⟨rs, by simp [readnFrom]⟩
  | case2 rs ih => exact ih whole inBuffer readSum
  | case3 b bs rs ih =>
    obtain ⟨tail, htail, rfl⟩ := Option.map_eq_some_iff.mp whole
    obtain ⟨rest, read⟩ := ih htail (inBuffer ++ b :: bs) (readSum + (b :: bs).length)
    refine ⟨rest, ?_⟩
    rw [readnFrom, read]
    simp [Nat.add_assoc, Nat.add_comm, Nat.add_left_comm]
  | case4 rs h1 h2 h3 =>
    unfold deliveredToEnd at whole
    split at whole <;> simp_all

theorem readn_deliveredToEnd {rs : List ReadResult} {s : Bytes}
    (whole : deliveredToEnd rs = some s) (inBuffer : Bytes) :
    ∃ rest, readn inBuffer rs = ⟨some s.length, inBuffer ++ s, true, rest⟩ := by
  simpa [readn] using readnFrom_deliveredToEnd whole inBuffer 0

/-! ### Writing -/

/-- The kernel takes a prefix of what it was offered. -/
theorem writeFrom_prefix (taken left : Bytes) (ws : List WriteResult) :
    ∃ sent, sent <+: left ∧ (writeFrom taken left ws).accepted = taken ++ sent := by
  induction ws generalizing taken left with
  | nil => exact ⟨left, List.prefix_refl _, rfl⟩
  | cons w ws ih =>
    unfold writeFrom
    split
    · exact ⟨[], List.nil_prefix, by simp⟩
    · cases w with
      -- The kernel takes the first bytes that are left, and the rest is tried again.
      | accepted n =>
        obtain ⟨sent, before, eq⟩ := ih (taken ++ left.take n) (left.drop n)
        obtain ⟨tail, rest⟩ := before
        refine ⟨left.take n ++ sent, ⟨tail, ?_⟩, ?_⟩
        · rw [List.append_assoc, rest, List.take_append_drop]
        · simpa [List.append_assoc] using eq
      | eintr => exact ih taken left
      | eagain => exact ⟨[], List.nil_prefix, by simp⟩
      | error => exact ⟨[], List.nil_prefix, by simp⟩

theorem writenRaw_accepted (buff : Bytes) (ws : List WriteResult) :
    (writenRaw buff ws).accepted <+: buff := by
  obtain ⟨sent, before, eq⟩ := writeFrom_prefix [] buff ws
  unfold writenRaw
  rw [eq, List.nil_append]
  exact before

/-- The socket never refuses: every write is taken, in pieces or after interruptions. -/
def Unblocked (ws : List WriteResult) : Prop :=
  ∀ w ∈ ws, w ≠ .eagain ∧ w ≠ .error

instance (ws : List WriteResult) : Decidable (Unblocked ws) :=
  inferInstanceAs (Decidable (∀ w ∈ ws, w ≠ .eagain ∧ w ≠ .error))

theorem writeFrom_unblocked (taken left : Bytes) {ws : List WriteResult} (free : Unblocked ws) :
    ∃ rest, Unblocked rest ∧ writeFrom taken left ws = ⟨true, taken ++ left, rest⟩ := by
  induction ws generalizing taken left with
  | nil => exact ⟨[], free, rfl⟩
  | cons w ws ih =>
    have tail : Unblocked ws := fun v member => free v (List.mem_cons_of_mem _ member)
    unfold writeFrom
    split
    next empty => exact ⟨w :: ws, free, by simp [empty]⟩
    next =>
      cases w with
      | accepted n =>
        obtain ⟨rest, still, eq⟩ := ih (taken ++ left.take n) (left.drop n) tail
        refine ⟨rest, still, ?_⟩
        simpa [List.append_assoc] using eq
      | eintr => exact ih taken left tail
      -- A kernel that does not block gives neither of these results.
      | eagain => exact absurd rfl (free .eagain (by simp)).1
      | error => exact absurd rfl (free .error (by simp)).2

theorem writenRaw_unblocked (buff : Bytes) {ws : List WriteResult} (free : Unblocked ws) :
    ∃ rest, Unblocked rest ∧ writenRaw buff ws = ⟨true, buff, rest⟩ :=
  writeFrom_unblocked [] buff free

/-- An unblocked `writen` sends the whole string, whatever its length. -/
theorem writen_unblocked (sbuff : Bytes) {ws : List WriteResult} (free : Unblocked ws) :
    ∃ rest, Unblocked rest ∧ writen sbuff ws = ⟨some sbuff.length, [], sbuff, rest⟩ := by
  obtain ⟨rest, still, eq⟩ := writeFrom_unblocked [] sbuff free
  refine ⟨rest, still, ?_⟩
  unfold writen
  rw [eq]
  simp

/-- The only trim that loses bytes: a string of 2^32 bytes or more whose size narrows
to the number of bytes written so far. -/
def TrimsExactly (sbuff : Bytes) (ws : List WriteResult) : Prop :=
  ((writen sbuff ws).accepted.length : Int) = toInt sbuff.length →
    (writen sbuff ws).accepted.length = sbuff.length

instance (sbuff : Bytes) (ws : List WriteResult) : Decidable (TrimsExactly sbuff ws) :=
  inferInstanceAs (Decidable (_ → _))

theorem writen_prefix (sbuff : Bytes) (ws : List WriteResult) :
    (writen sbuff ws).accepted <+: sbuff := by
  have before := writenRaw_accepted sbuff ws
  unfold writenRaw at before
  unfold writen
  dsimp only
  split <;> exact before

/-- What was accepted and what is kept make up the string again. -/
theorem writen_conserves {sbuff : Bytes} {ws : List WriteResult}
    (exact : TrimsExactly sbuff ws) (alive : (writen sbuff ws).ret ≠ none) :
    (writen sbuff ws).accepted ++ (writen sbuff ws).sbuff = sbuff := by
  have before := writen_prefix sbuff ws
  unfold TrimsExactly at exact
  unfold writen at *
  dsimp only at *
  split at alive
  next ok =>
    rw [if_pos ok] at exact before ⊢
    dsimp only at *
    -- Where the size narrows to the whole, all has been taken.
    split
    next narrowed => simpa using before.eq_of_length (exact narrowed)
    next => exact List.prefix_iff_eq_append.mp before
  next => exact absurd rfl alive

end LightAgent

import LightAgent.Util

/-!
# What the socket loops pass on

Bytes are neither lost nor doubled on their way between the socket and the buffers, but for one
trim of `writen` that takes a narrowed size for the size.
-/
namespace LightAgent

open Library

def ReadResult.bytes : ReadResult → Bytes
  | .data first rest => first :: rest
  | _ => []

/-- A read that `readn` follows with another one. -/
def ReadResult.goesOn : ReadResult → Bool
  | .data _ _ => true
  | .eintr => true
  | _ => false

/-- The bytes delivered before the stream ends, fails or pauses. -/
def received (rs : List ReadResult) : Bytes :=
  (rs.takeWhile ReadResult.goesOn).flatMap ReadResult.bytes

/-- What the reads come to in the end, with `eagain` for a socket that has no more. -/
def readStop (rs : List ReadResult) : ReadResult :=
  (rs.dropWhile ReadResult.goesOn).headD .eagain

/-- What `readn` is to leave, from what the socket gave. -/
def ReadConserves (inBuffer : Bytes) (rs : List ReadResult) : Prop :=
  (readn inBuffer rs).inBuffer = inBuffer ++ received rs ∧
    ((readn inBuffer rs).ret ≠ none →
      (readn inBuffer rs).ret = some (received rs).length ∧
        ((readn inBuffer rs).zero = true ↔ readStop rs = .eof))

/-- What `writen` is to leave, from what the socket took. -/
def WriteConserves (sbuff : Bytes) (ws : List WriteResult) : Prop :=
  (writen sbuff ws).ret ≠ none →
    (writen sbuff ws).accepted ++ (writen sbuff ws).sbuff = sbuff ∧
      (writen sbuff ws).ret = some (writen sbuff ws).accepted.length

/-! ### Reading -/

/-- `readn` moves bytes from the socket to the buffer, in their order, and leaves the rest. -/
theorem readnFrom_bytes (inBuffer : Bytes) (readSum : Nat) (rs : List ReadResult) :
    (readnFrom inBuffer readSum rs).inBuffer ++
        (readnFrom inBuffer readSum rs).rest.flatMap ReadResult.bytes =
      inBuffer ++ rs.flatMap ReadResult.bytes := by
  induction rs generalizing inBuffer readSum with
  | nil => rfl
  | cons r rs ih =>
    cases r with
    | data b bs =>
      rw [readnFrom, ih]
      simp [ReadResult.bytes]
    | eintr => simpa [readnFrom, ReadResult.bytes] using ih inBuffer readSum
    | eof => simp [readnFrom, ReadResult.bytes]
    | eagain => simp [readnFrom, ReadResult.bytes]
    | error => simp [readnFrom, ReadResult.bytes]

@[simp] theorem received_data (b : UInt8) (bs : Bytes) (rs : List ReadResult) :
    received (.data b bs :: rs) = b :: bs ++ received rs := by
  simp [received, List.takeWhile_cons, ReadResult.goesOn, ReadResult.bytes]

@[simp] theorem received_eintr (rs : List ReadResult) : received (.eintr :: rs) = received rs := by
  simp [received, List.takeWhile_cons, ReadResult.goesOn, ReadResult.bytes]

@[simp] theorem readStop_data (b : UInt8) (bs : Bytes) (rs : List ReadResult) :
    readStop (.data b bs :: rs) = readStop rs := by
  simp [readStop, List.dropWhile_cons, ReadResult.goesOn]

@[simp] theorem readStop_eintr (rs : List ReadResult) : readStop (.eintr :: rs) = readStop rs := by
  simp [readStop, List.dropWhile_cons, ReadResult.goesOn]

/-- All that `readn` leaves but the reads it has not used. -/
theorem readnFrom_received (inBuffer : Bytes) (readSum : Nat) (rs : List ReadResult) :
    ∃ rest, readnFrom inBuffer readSum rs =
      ⟨if readStop rs = .error then none else some (readSum + (received rs).length),
        inBuffer ++ received rs, decide (readStop rs = .eof), rest⟩ := by
  induction rs generalizing inBuffer readSum with
  | nil => exact ⟨[], by simp [readnFrom, received, readStop]⟩
  | cons r rs ih =>
    cases r with
    | data b bs =>
      obtain ⟨rest, eq⟩ := ih (inBuffer ++ b :: bs) (readSum + (b :: bs).length)
      refine ⟨rest, ?_⟩
      rw [readnFrom, eq]
      simp [Nat.add_assoc, Nat.add_comm, Nat.add_left_comm]
    | eintr =>
      obtain ⟨rest, eq⟩ := ih inBuffer readSum
      exact ⟨rest, by simpa [readnFrom] using eq⟩
    | eof => exact ⟨rs, by simp [readnFrom, received, readStop, ReadResult.goesOn]⟩
    | eagain => exact ⟨rs, by simp [readnFrom, received, readStop, ReadResult.goesOn]⟩
    | error => exact ⟨rs, by simp [readnFrom, received, readStop, ReadResult.goesOn]⟩

theorem readn_conserves (inBuffer : Bytes) (rs : List ReadResult) : ReadConserves inBuffer rs := by
  obtain ⟨rest, eq⟩ := readnFrom_received inBuffer 0 rs
  unfold ReadConserves readn
  rw [eq]
  refine ⟨rfl, fun alive => ⟨?_, by simp⟩⟩
  dsimp only at alive ⊢
  split at alive
  · exact absurd rfl alive
  next sound => rw [if_neg sound, Nat.zero_add]

/-! ### Writing -/

/-- The bytes the socket takes in writes that all find room for what they are offered. -/
def taken : List WriteResult → Nat
  | [] => 0
  | .accepted n :: ws => n + taken ws
  | _ :: ws => taken ws

/-- The writes come to one that would block when not all bytes have gone out, and the size narrows
to the number of those that have. -/
def TrimSlips (sbuff : Bytes) (ws : List WriteResult) : Prop :=
  ∃ before rest, ws = before ++ .eagain :: rest ∧ Unblocked before ∧
    taken before < sbuff.length ∧ (taken before : Int) = toInt sbuff.length

/-- What the write loop comes to: all is out, or the first write that the socket refuses. -/
theorem writeFrom_cases (out left : Bytes) (ws : List WriteResult) :
    (writeFrom out left ws).accepted = out ++ left ∨
      ∃ before w rest, ws = before ++ w :: rest ∧ Unblocked before ∧ taken before < left.length ∧
        (w = .eagain ∨ w = .error) ∧
        writeFrom out left ws = ⟨decide (w = .eagain), out ++ left.take (taken before), rest⟩ := by
  induction ws generalizing out left with
  | nil => exact .inl rfl
  | cons w ws ih =>
    unfold writeFrom
    split
    next empty => exact .inl (by simp [empty])
    next more =>
      have some : 0 < left.length := List.length_pos_iff.mpr more
      cases w with
      | accepted n =>
        rcases ih (out ++ left.take n) (left.drop n) with
          all | ⟨before, w, rest, rfl, free, room, refused, eq⟩
        · exact .inl (by simpa [List.append_assoc] using all)
        · rw [List.length_drop] at room
          refine .inr ⟨.accepted n :: before, w, rest, rfl, ?_, ?_, refused, ?_⟩
          · simpa [Unblocked] using free
          · simp only [taken]
            omega
          · simp [eq, taken, List.take_add]
      | eintr =>
        rcases ih out left with all | ⟨before, w, rest, rfl, free, room, refused, eq⟩
        · exact .inl all
        · exact .inr ⟨.eintr :: before, w, rest, rfl, by simpa [Unblocked] using free, room,
            refused, eq⟩
      | eagain =>
        exact .inr ⟨[], .eagain, ws, rfl, by simp [Unblocked], some, .inl rfl, by simp [taken]⟩
      | error =>
        exact .inr ⟨[], .error, ws, rfl, by simp [Unblocked], some, .inr rfl, by simp [taken]⟩

/-- The write loop up to a write that would block. -/
theorem writeFrom_blocks {before : List WriteResult} (free : Unblocked before) (out : Bytes)
    {left : Bytes} (room : taken before < left.length) (rest : List WriteResult) :
    writeFrom out left (before ++ .eagain :: rest) =
      ⟨true, out ++ left.take (taken before), rest⟩ := by
  have more : left ≠ [] := List.length_pos_iff.mp (Nat.zero_lt_of_lt room)
  induction before generalizing out left with
  | nil => simp [writeFrom, more, taken]
  | cons w ws ih =>
    have tail : Unblocked ws := fun v member => free v (List.mem_cons_of_mem _ member)
    cases w with
    | accepted n =>
      have less : taken ws < (left.drop n).length := by
        rw [List.length_drop]
        simp only [taken] at room
        omega
      have next := ih tail (out ++ left.take n) less (List.length_pos_iff.mp (Nat.zero_lt_of_lt less))
      simp [writeFrom, more, next, taken, List.take_add]
    | eintr => simpa [writeFrom, more, taken] using ih tail out room more
    | eagain => exact absurd rfl (free .eagain (by simp)).1
    | error => exact absurd rfl (free .error (by simp)).2

/-- Where the narrowed size is met too early the bytes that are left go with the others. -/
theorem writen_slips {sbuff : Bytes} {ws : List WriteResult} (slips : TrimSlips sbuff ws) :
    ¬WriteConserves sbuff ws := by
  obtain ⟨before, rest, rfl, free, room, narrowed⟩ := slips
  have loop := writeFrom_blocks free [] room rest
  have sum : (sbuff.take (taken before)).length = taken before := by
    rw [List.length_take]
    omega
  intro conserves
  have kept := conserves (by simp [writen, loop])
  simp only [writen, loop, List.nil_append, sum, if_pos narrowed, if_true, List.append_nil] at kept
  rw [kept.1] at sum
  omega

theorem writen_trims {sbuff : Bytes} {ws : List WriteResult} (sound : ¬TrimSlips sbuff ws)
    (alive : (writen sbuff ws).ret ≠ none) : TrimsExactly sbuff ws := by
  rcases writeFrom_cases [] sbuff ws with
    all | ⟨before, w, rest, rfl, free, room, refused, loop⟩
  · intro _
    have whole : (writen sbuff ws).accepted = sbuff := by
      unfold writen
      dsimp only
      split <;> simpa using all
    rw [whole]
  · rcases refused with rfl | rfl
    · intro narrowed
      have sum : (sbuff.take (taken before)).length = taken before := by
        rw [List.length_take]
        omega
      simp only [writen, loop, List.nil_append, sum, decide_true, if_true] at narrowed
      exact absurd ⟨before, rest, rfl, free, room, narrowed⟩ sound
    -- After a hard error nothing is trimmed, and nothing promised.
    · exact absurd (by simp [writen, loop]) alive

/-- `readn` brings the bytes that were delivered, in order, and tells how many came and whether
the stream ended. `writen` keeps what the socket did not take and tells how much it took, unless
a write would block just when the size, narrowed, is what has gone out. -/
theorem socket_loops_conserve_iff (inBuffer sbuff : Bytes) (rs : List ReadResult)
    (ws : List WriteResult) :
    ReadConserves inBuffer rs ∧ WriteConserves sbuff ws ↔ ¬TrimSlips sbuff ws := by
  constructor
  · intro ⟨_, conserves⟩ slips
    exact writen_slips slips conserves
  · intro sound
    refine ⟨readn_conserves inBuffer rs, fun alive => ⟨?_, ?_⟩⟩
    · exact writen_conserves (writen_trims sound alive) alive
    · unfold writen at alive ⊢
      dsimp only at alive ⊢
      split at alive
      next ok => rw [if_pos ok]
      next => exact absurd rfl alive

/-- A string of four gigabytes is gone though the socket took none of it. -/
theorem blocked_string_is_lost : ¬WriteConserves (List.replicate (2 ^ 32) 0) [.eagain] := by
  refine writen_slips ⟨[], [], rfl, by simp [Unblocked], ?_, ?_⟩
  · rw [List.length_replicate]
    decide
  · rw [List.length_replicate]
    decide

end LightAgent

import LightAgent.Base.Logging
import LightAgent.HttpData.HandleConn
import LightAgent.HttpData.Rounds

/-!
# Where handleRead does not return

Two things end the process inside the block of `handleRead`. A `LOG` statement copies a text of
two gigabytes or more into its small buffer where the size, narrowed, is less than the room, and
an exception of `parseHeaders` is caught by nobody. `readBlock` is what the block does where
`BlockReturns` holds.
-/
namespace LightAgent

open Library FixedBuffer

/-! ### The LOG statements -/

/-- A text that is not copied beyond a buffer in which this room is left. -/
def LogFits (room : Nat) (text : Bytes) : Prop :=
  text.length < 2 ^ 31 ∨ (room : Int) ≤ toInt text.length

instance (room : Nat) (text : Bytes) : Decidable (LogFits room text) :=
  inferInstanceAs (Decidable (_ ∨ _))

/-- `LOG << "Request: " << inBuffer_;` -/
def requestLog (str_t fileName : Bytes) (h : HttpData) : Statement where
  str_t := str_t
  operands := [.pointer (some (bytes "Request: ")), .string h.inBuffer_]
  fileName := fileName
  line := ⟨187, by decide⟩

/-- `LOG << "FD = " << fd_ << "," << inBuffer_ << "******";` -/
def refusedLineLog (str_t fileName : Bytes) (h : HttpData) (fits : IntType.int.Fits h.fd_) :
    Statement where
  str_t := str_t
  operands := [.pointer (some (bytes "FD = ")), .integer .int ⟨h.fd_, fits⟩,
    .pointer (some (bytes ",")), .string h.inBuffer_, .pointer (some (bytes "******"))]
  fileName := fileName
  line := ⟨223, by decide⟩

/-- The room behind the time and the operands in front of the buffer. -/
def requestRoom : Nat := 3971

def refusedLineRoom (fd_ : Fd) : Nat := 3974 - (decimal fd_).length

/-- One text of any size among short ones. -/
theorem noneWraps_iff {before after : List Operand} {text : Bytes}
    (first : ∀ operand ∈ before, operand.piece.bytes.length < 2 ^ 31)
    (last : ∀ operand ∈ after, operand.piece.bytes.length < 2 ^ 31) :
    NoneWraps (before ++ .string text :: after) ↔
      LogFits (kSmallBuffer - (kept before).length) text := by
  constructor
  · intro sound
    by_cases short : text.length < 2 ^ 31
    · exact .inl short
    · exact .inr (sound before (.string text) after text rfl rfl (Nat.not_lt.mp short))
  · rintro fits before' operand after' buf split piece long
    -- The long text can be the one operand only.
    rcases List.append_eq_append_iff.mp split with ⟨middle, rfl, tail⟩ | ⟨middle, rfl, tail⟩
    · cases middle with
      | nil =>
        cases tail
        cases piece
        rw [List.append_nil]
        exact fits.resolve_left (Nat.not_lt.mpr long)
      | cons other middle =>
        cases tail
        have short := last operand (List.mem_append_right _ List.mem_cons_self)
        rw [piece] at short
        exact absurd short (Nat.not_lt.mpr long)
    · cases middle with
      | nil =>
        cases tail
        cases piece
        rw [List.append_nil] at fits
        exact fits.resolve_left (Nat.not_lt.mpr long)
      | cons other middle =>
        cases tail
        have short := first operand (List.mem_append_right _ List.mem_cons_self)
        rw [piece] at short
        exact absurd short (Nat.not_lt.mpr long)

theorem keep_length {out : Bytes} {piece : Piece} (room : piece.need ≤ kSmallBuffer - out.length) :
    (keep out piece).length = out.length + piece.bytes.length := by
  unfold keep
  rw [if_pos room, List.length_append]

section

variable {buffer_ : Memory} {str_t fileName : Bytes}

/-- What stands in front of the operands of a statement: the time, as `strftime` writes it. -/
theorem kept_time (time : str_t.length = 20) (solid : 0 ∉ str_t) :
    (kept [.pointer (some str_t)]).length = 20 := by
  have whole : cString str_t = str_t := takeWhile_absent solid
  change (keep [] (Piece.text (cString str_t))).length = 20
  rw [whole, keep_length]
  · exact (Nat.zero_add _).trans time
  · change str_t.length + 1 ≤ kSmallBuffer - 0
    rw [time]
    decide

theorem kept_length_append {operands : List Operand} {operand : Operand} {n k : Nat}
    (front : (kept operands).length = n) (length : operand.piece.bytes.length = k)
    (room : operand.piece.need ≤ kSmallBuffer - n) : (kept (operands ++ [operand])).length = n + k := by
  rw [kept_append, keep_length (by rwa [front]), front, length]

theorem cString_le (str : Bytes) : (cString str).length ≤ str.length :=
  (List.takeWhile_prefix _).length_le

theorem logged_iff (fresh : (memory kSmallBuffer).init buffer_) (s : Statement) :
    (∃ record, logged buffer_ s = some record) ↔ NoneWraps s.streamed := by
  rw [← stream_iff fresh, logged_eq fresh]
  constructor
  · rintro ⟨record, passed⟩
    obtain ⟨m, run, _⟩ := Option.map_eq_some_iff.mp passed
    exact ⟨m, run⟩
  · rintro ⟨m, run⟩
    exact ⟨_, Option.map_eq_some_iff.mpr ⟨m, run, rfl⟩⟩

/-- What `~Logger` puts behind the operands is short. -/
theorem suffix_short (name : fileName.length < 2 ^ 31) (line : IntType.int.Value) :
    ∀ operand ∈ [Operand.pointer (some (bytes " -- ")), .string (cString fileName), .char 58,
      .integer .int line, .char 10], operand.piece.bytes.length < 2 ^ 31 := by
  intro operand member
  simp only [List.mem_cons, List.not_mem_nil, or_false] at member
  rcases member with rfl | rfl | rfl | rfl | rfl
  · decide
  · exact Nat.lt_of_le_of_lt (cString_le fileName) name
  · decide
  · have short := signedDecimal_le line
    change (signedDecimal line).length < _
    omega
  · decide

theorem requestLog_returns_iff (fresh : (memory kSmallBuffer).init buffer_)
    (time : str_t.length = 20) (solid : 0 ∉ str_t) (name : fileName.length < 2 ^ 31)
    (h : HttpData) : (∃ record, logged buffer_ (requestLog str_t fileName h) = some record) ↔
      LogFits requestRoom h.inBuffer_ := by
  have room : (kept [.pointer (some str_t), .pointer (some (bytes "Request: "))]).length = 29 :=
    kept_length_append (kept_time time solid) (k := 9) (by decide) (by decide)
  rw [logged_iff fresh]
  refine (@noneWraps_iff [.pointer (some str_t), .pointer (some (bytes "Request: "))] _ _
    ?_ (suffix_short name _)).trans (by rw [room]; rfl)
  intro operand member
  simp only [List.mem_cons, List.not_mem_nil, or_false] at member
  rcases member with rfl | rfl
  · have short := cString_le str_t
    change (cString str_t).length < _
    omega
  · decide

theorem refusedLineLog_returns_iff (fresh : (memory kSmallBuffer).init buffer_)
    (time : str_t.length = 20) (solid : 0 ∉ str_t) (name : fileName.length < 2 ^ 31)
    (h : HttpData) (fits : IntType.int.Fits h.fd_) :
    (∃ record, logged buffer_ (refusedLineLog str_t fileName h fits) = some record) ↔
      LogFits (refusedLineRoom h.fd_) h.inBuffer_ := by
  have digits : (signedDecimal h.fd_).length = (decimal h.fd_).length := rfl
  have short : (decimal h.fd_).length ≤ 20 := signedDecimal_le (T := .int) ⟨h.fd_, fits⟩
  have first : (kept [.pointer (some str_t), .pointer (some (bytes "FD = "))]).length = 25 :=
    kept_length_append (kept_time time solid) (k := 5) (by decide) (by decide)
  have second : (kept ([.pointer (some str_t), .pointer (some (bytes "FD = "))] ++
      [.integer .int ⟨h.fd_, fits⟩])).length = 25 + (decimal h.fd_).length :=
    kept_length_append first digits (by change kMaxNumericSize ≤ kSmallBuffer - 25; decide)
  have room : (kept ([.pointer (some str_t), .pointer (some (bytes "FD = "))] ++
      [.integer .int ⟨h.fd_, fits⟩] ++ [.pointer (some (bytes ","))])).length =
        25 + (decimal h.fd_).length + 1 := by
    refine kept_length_append second (by decide) ?_
    change 1 + 1 ≤ 4000 - (25 + (decimal h.fd_).length)
    omega
  have left : kSmallBuffer - (25 + (decimal h.fd_).length + 1) = refusedLineRoom h.fd_ := by
    unfold kSmallBuffer refusedLineRoom
    omega
  rw [logged_iff fresh]
  refine (@noneWraps_iff _ (.pointer (some (bytes "******")) :: _) _ ?_ ?_).trans
    (by rw [room, left])
  · intro operand member
    simp only [List.cons_append, List.nil_append, List.mem_cons, List.not_mem_nil,
      or_false] at member
    rcases member with rfl | rfl | rfl | rfl
    · have time := cString_le str_t
      change (cString str_t).length < _
      omega
    · decide
    · change (decimal h.fd_).length < _
      omega
    · decide
  · intro operand member
    rcases List.mem_cons.mp member with rfl | member
    · decide
    · exact suffix_short name ⟨223, by decide⟩ operand member

end

/-! ### The block -/

/-- The connection on which the block refuses the request line, with what stands behind the line. -/
def Conn.refusedLine (s : Conn) : Option HttpData :=
  match readStage s with
  | .ok t =>
    if t.http.state_ = .parseUri then
      match t.http.parseURI with
      | (h, .error) => some h
      | _ => none
    else none
  | .error _ => none

/-- The connection on which the block calls `parseHeaders`, where it comes to that. -/
def Conn.headersCall (s : Conn) : Option HttpData :=
  match (readStage s).bind parseUriStage with
  | .ok t => if t.http.state_ = .parseHeaders then some t.http else none
  | .error _ => none

/-- The block of `handleRead` comes to its end. -/
structure BlockReturns (w : World) (s : Conn) : Prop where
  request : LogFits requestRoom (readn s.http.inBuffer_ s.wire.reads).inBuffer
  refusedLine : ∀ h ∈ s.refusedLine, LogFits (refusedLineRoom h.fd_) h.inBuffer_
  headers : ∀ h ∈ s.headersCall, (h.parseHeaders w.outside).2 ≠ .thrown

instance (w : World) (s : Conn) : Decidable (BlockReturns w s) :=
  decidable_of_iff (LogFits requestRoom (readn s.http.inBuffer_ s.wire.reads).inBuffer ∧
      (∀ h ∈ s.refusedLine, LogFits (refusedLineRoom h.fd_) h.inBuffer_) ∧
      ∀ h ∈ s.headersCall, (h.parseHeaders w.outside).2 ≠ .thrown)
    ⟨fun ⟨request, line, headers⟩ => ⟨request, line, headers⟩,
      fun ⟨request, line, headers⟩ => ⟨request, line, headers⟩⟩

/-! ### The recursion -/

/-- A call of `handleRead` comes to a call of it on the connection `t`. -/
inductive Calls (w : World) : Conn → Conn → Prop
  | here (s : Conn) : Calls w s s
  | again {s t : Conn} : (flush (readBlock w s)).finished →
      (reset (flush (readBlock w s))).continues → Calls w (reset (flush (readBlock w s))) t →
      Calls w s t

/-- The connections on which `handleRead` is called, at most so many. -/
def callsFrom (w : World) : Nat → Conn → List Conn
  | 0, _ => []
  | depth + 1, s =>
    let t := flush (readBlock w s)
    s :: if t.finished ∧ (reset t).continues then callsFrom w depth (reset t) else []

theorem mem_callsFrom {w : World} {depth : Nat} {s t : Conn} (enough : s.depth < depth) :
    t ∈ callsFrom w depth s ↔ Calls w s t := by
  induction depth generalizing s with
  | zero => omega
  | succ depth ih =>
    rw [callsFrom, List.mem_cons]
    constructor
    · rintro (rfl | later)
      · exact .here t
      · split at later
        next more =>
          have less := readBlock_depth (flush_finished more.1)
          exact .again more.1 more.2 ((ih (by rw [reset_depth, flush_input]; omega)).mp later)
        next => cases later
    · intro calls
      cases calls with
      | here => exact .inl rfl
      | again done more calls =>
        have less := readBlock_depth (flush_finished done)
        rw [if_pos ⟨done, more⟩]
        exact .inr ((ih (by rw [reset_depth, flush_input]; omega)).mpr calls)

/-- `handleRead` returns where the blocks of all its calls do. -/
def ReadReturns (w : World) (s : Conn) : Prop := ∀ t, Calls w s t → BlockReturns w t

theorem readReturns_iff {w : World} {s : Conn} :
    (∀ t ∈ callsFrom w (s.input + 2) s, BlockReturns w t) ↔ ReadReturns w s := by
  have enough : s.depth < s.input + 2 := by
    unfold Conn.depth
    split <;> omega
  exact forall_congr' fun t => imp_congr_left (mem_callsFrom enough)

instance (w : World) (s : Conn) : Decidable (ReadReturns w s) :=
  decidable_of_iff _ readReturns_iff

/-- `Channel::handleEvents` returns where the read handler does, if it is called. -/
def EventsReturn (w : World) (s : Conn) : Prop :=
  returnsEarly s.http.channel_.revents_ = false →
    s.http.channel_.revents_.has (EPOLLIN ||| EPOLLPRI ||| EPOLLRDHUP) = true →
      ReadReturns w (s.setEvents 0)

instance (w : World) (s : Conn) : Decidable (EventsReturn w s) :=
  inferInstanceAs (Decidable (_ → _ → _))

/-! ### Less than two gigabytes -/

/-- From 2^31 to 2^32 bytes the size is negative as an `int`, less than any room. -/
theorem LogFits.small {room : Nat} {text : Bytes} (fits : LogFits room text)
    (high : text.length < 2 ^ 32) : text.length < 2 ^ 31 := by
  rcases fits with small | negative
  · exact small
  · by_contra low
    have sign := toInt_neg (Nat.not_lt.mp low) high
    omega

/-- What a call finds, buffered and unread, was there at the start. -/
theorem Calls.input {w : World} {s t : Conn} (calls : Calls w s t) : t.input ≤ s.input := by
  induction calls with
  | here s => exact Nat.le_refl _
  | @again s t _ _ _ ih =>
    rw [reset_input, flush_input] at ih
    exact Nat.le_trans ih (readBlock_block w s).input

end LightAgent

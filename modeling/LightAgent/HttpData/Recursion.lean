import LightAgent.HttpData.Returns
import LightAgent.HttpData.Rounds
import LightAgent.Util.SocketLoops

/-!
# How deep handleRead goes

The calls of `handleRead` for what is still buffered. A round that starts at a request line ends
with a finished request only if it has used up the CR of that line, so the carriage returns that
are buffered or still to be read bound the calls.
-/
namespace LightAgent

open Library

/-- The carriage returns among the bytes buffered and the bytes still to be read. -/
def Conn.returns (s : Conn) : Nat :=
  (s.http.inBuffer_ ++ s.wire.reads.flatMap ReadResult.bytes).count CR

/-! ### One round -/

/-- Bytes that are only taken off the front of the buffer. -/
theorem returns_le {s t : Conn} (suffix : t.http.inBuffer_ <:+ s.http.inBuffer_)
    (reads : t.wire.reads = s.wire.reads) : t.returns ≤ s.returns := by
  unfold Conn.returns
  rw [reads, List.count_append, List.count_append]
  exact Nat.add_le_add_right (suffix.sublist.count_le CR) _

theorem readStage_returns (s : Conn) : (outcome (readStage s)).returns ≤ s.returns := by
  have moved := readnFrom_bytes s.http.inBuffer_ 0 s.wire.reads
  change (readn _ _).inBuffer ++ (readn _ _).rest.flatMap _ = _ at moved
  have kept : ((readn s.http.inBuffer_ s.wire.reads).inBuffer ++
      (readn s.http.inBuffer_ s.wire.reads).rest.flatMap ReadResult.bytes).count CR ≤
        s.returns := by
    rw [moved]
    exact Nat.le_refl _
  unfold readStage
  dsimp only
  repeat' split
  -- A connection that is gone loses its buffer; in the other cases it holds what was read.
  · refine Nat.le_trans (List.Sublist.count_le _ ?_) kept
    exact List.sublist_append_right _ _
  all_goals exact kept

theorem AnswerFrame.returns {s t : Conn} (frame : AnswerFrame s t) : t.returns ≤ s.returns := by
  obtain ⟨⟨_, _, _, suffix, http⟩, ⟨_, _, _, _, wire⟩, _⟩ := frame
  refine returns_le ?_ ?_
  · rw [http]
    exact suffix
  · rw [wire]

theorem Parsed.returns {s : Conn} {r : Except Conn Conn} (parsed : Parsed s r) :
    (outcome r).returns ≤ s.returns := by
  cases parsed with
  | goesOn h frame _ => exact returns_le frame.inBuffer_ rfl
  | waits h frame _ _ => exact returns_le frame.inBuffer_ rfl
  | rejects h msg frame _ =>
    exact Nat.le_trans (AnswerFrame.handleError _ 400 msg).returns
      (returns_le (t := s.setHttp h) frame.inBuffer_ rfl)

/-- Behind a byte that is found there is one less of it. -/
theorem count_behind {c : UInt8} {s : Bytes} {pos i : Nat}
    (found : findFrom [c] s pos = some i) : (s.drop (i + 1)).count c < s.count c := by
  obtain ⟨j, here, rfl⟩ := Option.map_eq_some_iff.mp found
  have cut := find_byte_drop here
  rw [List.drop_drop, List.drop_drop, ← Nat.add_assoc, Nat.add_comm pos j] at cut
  have whole := congrArg (List.count c) (List.take_append_drop (j + pos) s)
  rw [cut, List.count_append, List.count_cons_self] at whole
  omega

/-- The CR of a request line that is accepted is gone. -/
theorem parseUriStage_returns {s t : Conn} (fresh : s.http.state_ = .parseUri)
    (done : parseUriStage s = .ok t) : t.returns < s.returns := by
  unfold parseUriStage HttpData.parseURI at done
  rw [if_pos fresh] at done
  cases found : findFrom [CR] s.http.inBuffer_ s.http.nowReadPos_ with
  | none =>
    rw [found] at done
    cases done
  | some pos =>
    rw [found] at done
    dsimp only at done
    have fewer := count_behind found
    rcases HttpData.parseLine_cases (s.http.inBuffer_.take pos) with
      ⟨method, version, file, eq⟩ | ⟨method, file, eq⟩
    · rw [eq] at done
      cases done
      unfold Conn.returns
      rw [List.count_append, List.count_append]
      exact Nat.add_lt_add_right fewer _
    · rw [eq] at done
      cases done

theorem toAnalysis_returns (w : World) (s : Conn) : (outcome (toAnalysis w s)).returns ≤ s.returns := by
  have read := readStage_returns s
  unfold toAnalysis
  cases stage : readStage s with
  | error s₁ => rw [stage] at read; exact read
  | ok s₁ =>
    rw [stage] at read
    exact Nat.le_trans (parseStages_parsed w s₁).returns read

/-- A request that is ready to be answered, from its line on, has used up a CR. -/
theorem toAnalysis_returns_lt {w : World} {s t : Conn} (fresh : s.http.state_ = .parseUri)
    (done : toAnalysis w s = .ok t) : t.returns < s.returns := by
  obtain ⟨s₁, read, done⟩ := bind_eq_ok.mp done
  obtain ⟨s₂, s₃, line, block, body⟩ := parseStages_eq_ok.mp done
  have atLine : s₁.http.state_ = .parseUri := by
    obtain ⟨inBuffer, rest, state, rfl, _⟩ := (read ▸ readStage_outcome s).of_ok
    exact fresh
  have start := readStage_returns s
  have block' := (parseHeadersStage_parsed w s₂).returns
  have body' := (recvBodyStage_parsed s₃).returns
  rw [read] at start
  rw [block] at block'
  rw [body] at body'
  exact Nat.lt_of_le_of_lt (Nat.le_trans body' block')
    (Nat.lt_of_lt_of_le (parseUriStage_returns atLine line) start)

theorem analyse_returns (w : World) (s : Conn) : (analyse w s).returns ≤ s.returns := by
  have frame := (analysisRequest_frame w s).returns
  rcases analyse_cases w s with ⟨_, done⟩ | ⟨_, done⟩
  · rw [done]
    exact frame
  · rw [done]
    exact frame

theorem endBlock_returns (w : World) (r : Except Conn Conn) :
    (endBlock w r).returns ≤ (outcome r).returns := by
  cases r with
  | error s => exact Nat.le_refl _
  | ok s =>
    unfold endBlock
    dsimp only
    split
    · exact analyse_returns w s
    · exact Nat.le_refl _

/-- A round that starts at a request line and finishes has used up a CR. -/
theorem readBlock_returns {w : World} {s : Conn} (done : (readBlock w s).finished) :
    (readBlock w s).returns + (if s.http.state_ = .parseUri then 1 else 0) ≤ s.returns := by
  have kept := Nat.le_trans (endBlock_returns w (toAnalysis w s)) (toAnalysis_returns w s)
  split
  next fresh =>
    unfold readBlock at done ⊢
    cases stages : toAnalysis w s with
    | error t =>
      rw [stages] at done
      exact absurd done (toAnalysis_finished stages fresh)
    | ok t =>
      exact Nat.lt_of_le_of_lt (endBlock_returns w (.ok t)) (toAnalysis_returns_lt fresh stages)
  next => exact kept

theorem flush_returns (s : Conn) : (flush s).returns = s.returns := by
  refine flush_cases s rfl fun _ => ?_
  unfold handleWrite
  split <;> rfl

theorem reset_returns (s : Conn) : (reset s).returns = s.returns := by
  unfold reset seperateTimer Conn.returns
  split <;> rfl

theorem reset_state (s : Conn) : (reset s).http.state_ = .parseUri := by
  unfold reset seperateTimer
  dsimp only
  split <;> rfl

/-! ### The calls -/

/-- A call of `handleRead` that makes so many recursive calls and returns. -/
inductive HandlesRead (w : World) : Conn → Nat → Conn → Prop
  | waits {s : Conn} : BlockReturns w s → ¬(flush (readBlock w s)).finished →
      HandlesRead w s 0 (rearm (flush (readBlock w s)))
  | ends {s : Conn} : BlockReturns w s → (flush (readBlock w s)).finished →
      ¬(reset (flush (readBlock w s))).continues →
      HandlesRead w s 0 (reset (flush (readBlock w s)))
  | again {s t : Conn} {calls : Nat} : BlockReturns w s → (flush (readBlock w s)).finished →
      (reset (flush (readBlock w s))).continues →
      HandlesRead w (reset (flush (readBlock w s))) calls t → HandlesRead w s (calls + 1) t

/-- What is left of a request under way may finish without a CR, every other request needs one. -/
theorem HandlesRead.bound {w : World} {s t : Conn} {calls : Nat}
    (handles : HandlesRead w s calls t) :
    calls ≤ s.returns + (if s.http.state_ = .parseUri then 0 else 1) := by
  induction handles with
  | waits _ _ => exact Nat.zero_le _
  | ends _ _ _ => exact Nat.zero_le _
  | @again s t calls _ done _ _ ih =>
    -- The next call starts at a request line, with the carriage returns this round has left.
    have used := readBlock_returns (flush_finished done)
    rw [reset_state, if_pos rfl, reset_returns, flush_returns] at ih
    split at used
    next fresh =>
      rw [if_pos fresh]
      omega
    next inside =>
      rw [if_neg inside]
      omega

/-- A call that returns has come to the end of the block in every call it has made. -/
theorem HandlesRead.returns {w : World} {s t : Conn} {calls : Nat}
    (handles : HandlesRead w s calls t) : ReadReturns w s := by
  induction handles with
  | waits block unfinished =>
    intro u calls
    cases calls with
    | here => exact block
    | again done => exact absurd done unfinished
  | ends block _ stops =>
    intro u calls
    cases calls with
    | here => exact block
    | again _ more => exact absurd more stops
  | again block _ _ _ ih =>
    intro u calls
    cases calls with
    | here => exact block
    | again _ _ later => exact ih u later

end LightAgent

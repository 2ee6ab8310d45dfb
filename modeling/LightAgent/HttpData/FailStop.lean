import LightAgent.HttpData.Effects
import LightAgent.HttpData.Rejections

/-!
# After a failure

Once a handler has set `error_` the rest of the round writes nothing more. The block that sets
it may write one error page; a write that fails sets it only when it is over.
-/
namespace LightAgent

open Library

namespace Stream

/-- What a step may write to a connection that has failed, or fails in it. -/
structure FailStop (s s' : Stream) : Prop where
  /-- nothing is written any more -/
  after : s.conn.http.error_ = true →
    s'.conn.http.error_ = true ∧ s'.conn.wire.sent = s.conn.wire.sent
  /-- the error response is what the socket takes of one page -/
  block : s.conn.http.error_ = false → s'.conn.http.error_ = true → s.point = .block →
    s'.conn.wire.sent = s.conn.wire.sent ∨ ∃ page ∈ errorPages, s'.conn.wire.sent =
      s.conn.wire.sent ++ (pageWrites page.1 page.2 s.conn.wire.writes).1.accepted ++
        (pageWrites page.1 page.2 s.conn.wire.writes).2.accepted
  /-- elsewhere it is the write itself that has failed -/
  write : s.conn.http.error_ = false → s'.conn.http.error_ = true → s.point ≠ .block →
    (writen s.conn.http.outBuffer_ s.conn.wire.writes).ret = none ∧ s'.conn.wire.sent =
      s.conn.wire.sent ++ (writen s.conn.http.outBuffer_ s.conn.wire.writes).accepted

/-- A step that neither writes nor fails. -/
theorem FailStop.of_kept {s s' : Stream} (error : s'.conn.http.error_ = s.conn.http.error_)
    (sent : s'.conn.wire.sent = s.conn.wire.sent) : s.FailStop s' where
  after failed := ⟨error.trans failed, sent⟩
  block alive failed := absurd (alive.symm.trans (error.symm.trans failed)) (by decide)
  write alive failed := absurd (alive.symm.trans (error.symm.trans failed)) (by decide)

theorem handleWrite_failStop {s : Stream} {point : Point} (outside : s.point ≠ .block) :
    s.FailStop ⟨handleWrite s.conn, point, s.responses⟩ := by
  unfold LightAgent.handleWrite
  split
  next active =>
    constructor
    case after =>
      intro failed
      rw [failed] at active
      exact absurd active.1 (by decide)
    case block => exact fun _ _ at_block => absurd at_block outside
    -- `error_` is set here only by a `writen` that has failed.
    case write =>
      intro alive failed _
      refine ⟨?_, rfl⟩
      unfold afterWrite at failed
      rw [alive, Bool.false_or] at failed
      exact Option.isNone_iff_eq_none.mp failed
  next => exact .of_kept rfl rfl

/-- The block sends nothing, or what the socket takes of one page. -/
theorem readBlock_sent (w : World) (s : Conn) : (readBlock w s).wire.sent = s.wire.sent ∨
    ∃ page ∈ errorPages, (readBlock w s).wire.sent =
      s.wire.sent ++ (pageWrites page.1 page.2 s.wire.writes).1.accepted ++
        (pageWrites page.1 page.2 s.wire.writes).2.accepted := by
  obtain ⟨reply, _, replies, _⟩ := readBlock_response w s
  cases replies with
  | quiet _ unsent => exact .inl unsent
  | appends _ _ unsent => exact .inl unsent
  | hello _ unsent => exact .inl unsent
  | page err_num msg member _ written => exact .inr ⟨(err_num, msg), member, written⟩

theorem step_failStop {w : World} {s : Stream} {l : StreamLabel} {s' : Stream} (live : s.Live)
    (taken : step w s l = some s') : s.FailStop s' := by
  cases step_steps taken with
  | event =>
    obtain ⟨point, begun⟩ := begin_conn s _ _
    rw [begun]
    exact .of_kept rfl rfl
  | block point =>
    -- The block only runs before a failure, so what it writes is its own page.
    have alive := live.block point
    constructor
    case after => exact fun failed => absurd (alive.symm.trans failed) (by decide)
    case block => exact fun _ _ _ => readBlock_sent w s.conn
    case write => exact fun _ _ outside => absurd point outside
  | flush point =>
    refine flush_cases s.conn ?stays ?writes
    case stays => exact .of_kept rfl rfl
    case writes => exact fun _ => handleWrite_failStop (by rw [point]; decide)
  | reset => exact .of_kept (reset_error s.conn) (congrArg Wire.sent (reset_wire s.conn))
  | rearm =>
    obtain ⟨events, rearmed⟩ := rearm_events s.conn
    rw [rearmed]
    exact .of_kept rfl rfl
  | out point => exact handleWrite_failStop (by rw [point]; decide)
  | conn =>
    obtain ⟨channel, timer, state, _, http⟩ := handleConn_http s.conn
    refine .of_kept ?_ ?_
    · rw [http]
    · rw [handleConn_wire]
  | expire =>
    refine .of_kept ?_ ?_
    · rw [handleClose_http]
    · rw [handleClose_wire]

/-- `handleEvents` is a run of its steps, and each of them stops after a failure. -/
theorem handleEvents_failStop {w : World} {s : Conn} {a : Arrival} {revents : Events}
    (alive : s.http.error_ = false) (here : s.http.connectionState_ ≠ .disconnected)
    (returns : EventsReturn w (s.meets a revents)) :
    ∃ ls responses, (machine w).exec ⟨s, .waiting, []⟩ (.event a revents :: ls) =
        some ⟨handleEvents w (s.meets a revents), .waiting, responses⟩ ∧
      (machine w).Along (fun s _ s' => s.FailStop s') ⟨s, .waiting, []⟩ (.event a revents :: ls) := by
  obtain ⟨ls, responses, run⟩ := handleEvents_steps here returns []
  refine ⟨ls, responses, run, ?_⟩
  have live : Live ⟨s, .waiting, []⟩ :=
    ⟨nofun, fun _ failed => absurd (alive.symm.trans failed) (by decide)⟩
  exact Machine.along_of_invariant (M := machine w) (I := Live)
    (fun _ _ _ live taken => step_failStop live taken)
    (fun _ _ _ live taken => step_live live taken) live _

end Stream

/-! ### The end of the round -/

theorem handleEvents_closes {w : World} {s : Conn}
    (heard : returnsEarly s.http.channel_.revents_ = false)
    (exit : (decided w s).http.connExit = .closes) : Closed (decided w s) (handleEvents w s) := by
  cases handleEvents_handled w s with
  | ignored early _ => cases heard.symm.trans early
  | rearmed _ _ _ other _ _ => cases exit.symm.trans other
  | stranded _ other _ => cases exit.symm.trans other
  | closed _ _ closed => exact closed

/-- A call of `handleEvents` that sets `error_` leaves through `handleClose`. -/
theorem handleEvents_fails {w : World} {s : Conn} (alive : s.http.error_ = false)
    (failed : (handleEvents w s).http.error_ = true) :
    returnsEarly s.http.channel_.revents_ = false ∧ (decided w s).http.connExit = .closes := by
  cases handleEvents_handled w s with
  | ignored _ eq =>
    rw [eq] at failed
    exact absurd (alive.symm.trans failed) (by decide)
  -- A connection that failed is not rearmed.
  | rearmed events timeout early exit _ modified =>
    obtain ⟨timer, http⟩ := modified.http
    rw [http] at failed
    have failed : (decided w s).http.error_ = true := failed
    unfold HttpData.connExit at exit
    simp [failed] at exit
  | stranded _ exit eq =>
    rw [eq] at failed
    exact absurd ((connExit_strands.mp exit).1.symm.trans failed) (by decide)
  | closed early exit _ => exact ⟨early, exit⟩

end LightAgent

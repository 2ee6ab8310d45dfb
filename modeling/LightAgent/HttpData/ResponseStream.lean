import LightAgent.HttpData.Control
import LightAgent.HttpData.Fragmentation
import LightAgent.HttpData.Replies
import LightAgent.HttpData.Returns
import LightAgent.Library.Runs

/-!
# The response stream under back-pressure

One connection, with every handler taken apart into the steps that touch its output.
Between any two of them the bytes the socket took are compared with the responses of
the requests handled so far. The law breaks where a response is not appended: the
`/hello` route assigns `outBuffer_`, and an error page is written past it.
-/
namespace LightAgent

open Library

/-- Where the handlers of a connection stand. -/
inductive Point where
  | waiting
  /-- before the block of `handleRead` -/
  | block
  /-- before the write behind it -/
  | flush
  /-- before the end of the round -/
  | next
  /-- before `handleWrite` of an `EPOLLOUT` event -/
  | out
  /-- before `handleConn` -/
  | conn
  deriving DecidableEq, Repr

/-- A connection between two steps, with the responses of the requests handled. -/
structure Stream where
  conn : Conn
  point : Point
  responses : List Bytes

inductive StreamLabel where
  /-- `handleEvents` begins, and meets this kernel -/
  | event (a : Arrival) (revents : Events)
  /-- the handlers go on to their next step -/
  | run
  /-- the timeout of the connection closes it -/
  | expire

/-- Where `handleEvents` goes once `handleRead` is over or left out. -/
def Conn.afterRead (s : Conn) : Point :=
  if s.http.channel_.revents_.has EPOLLOUT then .out else .conn

namespace Stream

/-- `handleEvents` up to the first handler. -/
def begin (s : Stream) (a : Arrival) (revents : Events) : Stream :=
  let conn := (s.conn.meets a revents).setEvents 0
  if returnsEarly revents then { s with conn := conn }
  else if revents.has (EPOLLIN ||| EPOLLPRI ||| EPOLLRDHUP) then
    { s with conn := conn, point := .block }
  else { s with conn := conn, point := conn.afterRead }

/-- The next step of the handlers; there is none where the block does not return. -/
def run (w : World) (s : Stream) : Option Stream :=
  match s.point with
  | .waiting => none
  -- The response of the request is noted where it is made.
  | .block =>
    if BlockReturns w s.conn then some {
      conn := readBlock w s.conn
      point := .flush
      responses := s.responses ++ [response w s.conn] }
    else none
  | .flush => some { s with conn := flush s.conn, point := .next }
  | .next =>
    if s.conn.finished then
      let conn := reset s.conn
      some { s with conn := conn, point := if conn.continues then .block else conn.afterRead }
    else
      let conn := rearm s.conn
      some { s with conn := conn, point := conn.afterRead }
  | .out => some { s with conn := handleWrite s.conn, point := .conn }
  | .conn => some { s with conn := handleConn s.conn, point := .waiting }

/-- A connection that was closed has no more events. -/
def step (w : World) (s : Stream) : StreamLabel → Option Stream
  | .event a revents =>
    if s.point = .waiting ∧ s.conn.http.connectionState_ ≠ .disconnected then
      some (s.begin a revents)
    else none
  | .run => s.run w
  | .expire => if s.point = .waiting then some { s with conn := handleClose s.conn } else none

/-- What a step does, with the point it starts from. -/
inductive Steps (w : World) (s : Stream) : StreamLabel → Stream → Prop
  | event {a : Arrival} {revents : Events} : s.point = .waiting →
      s.conn.http.connectionState_ ≠ .disconnected →
      Steps w s (.event a revents) (s.begin a revents)
  | block : s.point = .block → BlockReturns w s.conn →
      Steps w s .run ⟨readBlock w s.conn, .flush, s.responses ++ [response w s.conn]⟩
  | flush : s.point = .flush → Steps w s .run ⟨flush s.conn, .next, s.responses⟩
  | reset {point : Point} : s.point = .next → s.conn.finished →
      point = (if (reset s.conn).continues then .block else (reset s.conn).afterRead) →
      Steps w s .run ⟨reset s.conn, point, s.responses⟩
  | rearm : s.point = .next → ¬s.conn.finished →
      Steps w s .run ⟨rearm s.conn, (rearm s.conn).afterRead, s.responses⟩
  | out : s.point = .out → Steps w s .run ⟨handleWrite s.conn, .conn, s.responses⟩
  | conn : s.point = .conn → Steps w s .run ⟨handleConn s.conn, .waiting, s.responses⟩
  | expire : s.point = .waiting →
      Steps w s .expire ⟨handleClose s.conn, s.point, s.responses⟩

theorem run_steps {w : World} {s s' : Stream} (taken : s.run w = some s') : s.Steps w .run s' := by
  unfold run at taken
  split at taken
  next => cases taken
  next point =>
    split at taken
    next returns => cases taken; exact .block point returns
    next => cases taken
  next point => cases taken; exact .flush point
  next point =>
    split at taken
    next done => cases taken; exact .reset point done rfl
    next pending => cases taken; exact .rearm point pending
  next point => cases taken; exact .out point
  next point => cases taken; exact .conn point

theorem step_steps {w : World} {s s' : Stream} {l : StreamLabel} (taken : step w s l = some s') :
    s.Steps w l s' := by
  cases l with
  | event a revents =>
    simp only [step] at taken
    split at taken
    next ready => cases taken; exact .event ready.1 ready.2
    next => cases taken
  | run => exact run_steps taken
  | expire =>
    simp only [step] at taken
    split at taken
    next rest => cases taken; exact .expire rest
    next => cases taken

/-- Before the first handler the events asked for are cleared, and nothing else. -/
theorem begin_conn (s : Stream) (a : Arrival) (revents : Events) : ∃ point, s.begin a revents =
    ⟨(s.conn.meets a revents).setEvents 0, point, s.responses⟩ := by
  unfold begin
  dsimp only
  split
  · exact ⟨s.point, rfl⟩
  · split
    · exact ⟨_, rfl⟩
    · exact ⟨_, rfl⟩

/-- A connection as it is accepted. -/
structure Fresh (s : Stream) : Prop where
  conn : ∃ this loop fd now epollCtl epoll, s.conn = accepted this loop fd now epollCtl epoll
  point : s.point = .waiting
  responses : s.responses = []

def machine (w : World) : Machine Stream StreamLabel := ⟨Fresh, step w⟩

/-! ### The steps make up the handlers -/

/-- A round up to the decision what comes next. -/
theorem round_steps {w : World} {s : Conn} (returns : BlockReturns w s) (responses : List Bytes)
    (ls : List StreamLabel) :
    (machine w).exec ⟨s, .block, responses⟩ (.run :: .run :: ls) =
      (machine w).exec ⟨flush (readBlock w s), .next, responses ++ [response w s]⟩ ls :=
  (Machine.exec_cons (if_pos returns) _).trans (Machine.exec_cons rfl _)

/-- From the block to the end of `handleRead`. -/
theorem handleRead_steps {w : World} {s : Conn} (returns : ReadReturns w s)
    (responses : List Bytes) : ∃ ls responses', (machine w).exec ⟨s, .block, responses⟩ ls =
      some ⟨handleRead w s, (handleRead w s).afterRead, responses'⟩ := by
  revert responses returns
  apply handleRead_induct (motive := fun s t => ReadReturns w s → ∀ responses, ∃ ls responses',
    (machine w).exec ⟨s, .block, responses⟩ ls = some ⟨t, t.afterRead, responses'⟩)
  · intro s pending returns responses
    refine ⟨[.run, .run, .run], responses ++ [response w s], ?_⟩
    rw [round_steps (returns s (.here s))]
    exact Machine.exec_cons (if_neg pending) []
  · intro s done last returns responses
    refine ⟨[.run, .run, .run], responses ++ [response w s], ?_⟩
    rw [round_steps (returns s (.here s))]
    refine (Machine.exec_cons (if_pos done) []).trans ?_
    rw [if_neg last]
    rfl
  -- The steps of this round come before those of the rounds behind it.
  · intro s t done more rest returns responses
    have later : ReadReturns w (reset (flush (readBlock w s))) :=
      fun u called => returns u (.again done more called)
    obtain ⟨ls, responses', reached⟩ := rest later (responses ++ [response w s])
    refine ⟨.run :: .run :: .run :: ls, responses', ?_⟩
    rw [round_steps (returns s (.here s))]
    refine (Machine.exec_cons (if_pos done) ls).trans ?_
    rw [if_pos more]
    exact reached

/-- An event, with the steps behind it, is `handleEvents`. -/
theorem handleEvents_steps {w : World} {s : Conn} {a : Arrival} {revents : Events}
    (here : s.http.connectionState_ ≠ .disconnected) (returns : EventsReturn w (s.meets a revents))
    (responses : List Bytes) : ∃ ls responses',
    (machine w).exec ⟨s, .waiting, responses⟩ (.event a revents :: ls) =
      some ⟨handleEvents w (s.meets a revents), .waiting, responses'⟩ := by
  have starts : (machine w).step ⟨s, .waiting, responses⟩ (.event a revents) =
      some (begin ⟨s, .waiting, responses⟩ a revents) := if_pos ⟨rfl, here⟩
  -- The steps that are left once `handleRead` is over.
  have finish (t : Conn) (revented : t.http.channel_.revents_ = revents) (responses : List Bytes) :
      ∃ ls, (machine w).exec ⟨t, t.afterRead, responses⟩ ls =
        some ⟨handleConn (if revents.has EPOLLOUT then handleWrite t else t), .waiting,
          responses⟩ := by
    unfold Conn.afterRead
    rw [revented]
    split
    · exact ⟨[.run, .run], rfl⟩
    · exact ⟨[.run], rfl⟩
  simp only [Machine.exec_cons starts]
  let c : Conn := (s.meets a revents).setEvents 0
  by_cases early : returnsEarly revents = true
  · have begun : begin ⟨s, .waiting, responses⟩ a revents = ⟨c, .waiting, responses⟩ := if_pos early
    have handled : handleEvents w (s.meets a revents) = c := if_pos early
    exact ⟨[], responses, by rw [begun, handled]; rfl⟩
  · have handled : handleEvents w (s.meets a revents) = handleConn (dispatch w c) := if_neg early
    rw [handled]
    unfold dispatch
    by_cases readable : revents.has (EPOLLIN ||| EPOLLPRI ||| EPOLLRDHUP) = true
    · have begun : begin ⟨s, .waiting, responses⟩ a revents = ⟨c, .block, responses⟩ :=
        (if_neg early).trans (if_pos readable)
      obtain ⟨ls, responses', read⟩ := handleRead_steps
        (returns (Bool.eq_false_iff.mpr early) readable) responses
      obtain ⟨rest, last⟩ := finish (handleRead w c) (handleRead_frame w c).revents_ responses'
      refine ⟨ls ++ rest, responses', ?_⟩
      rw [begun, Machine.exec_append read, last]
      simp only [c, Conn.meets, Conn.setEvents, readable, if_true]
    · have begun : begin ⟨s, .waiting, responses⟩ a revents = ⟨c, c.afterRead, responses⟩ :=
        (if_neg early).trans (if_neg readable)
      obtain ⟨rest, last⟩ := finish c rfl responses
      refine ⟨rest, responses, ?_⟩
      rw [begun, last]
      simp only [c, Conn.meets, Conn.setEvents, readable]
      rfl

/-- The bytes the socket took begin the responses, and as long as nothing failed what is
pending ends them. -/
structure Intact (s : Stream) : Prop where
  taken : s.conn.wire.sent <+: s.responses.flatten
  pending : s.conn.http.error_ = false →
    s.conn.wire.sent ++ s.conn.http.outBuffer_ = s.responses.flatten

end Stream

/-! ### When the order is kept -/

/-- The error page goes out behind all earlier responses, and its body behind its header. -/
def PageInOrder (s : Conn) (err_num : Nat) (msg : Bytes) : Prop :=
  let page := pageWrites err_num msg s.wire.writes
  (s.http.outBuffer_ = [] ∨ page.1.accepted = [] ∧ page.2.accepted = []) ∧
    (page.1.accepted = errorHeader err_num (bytes " " ++ msg) ∨ page.2.accepted = [])

/-- The response is not one that overtakes what is pending. -/
def KeepsOrder (w : World) (s : Conn) : Prop :=
  (response w s = helloResponse → s.http.outBuffer_ = []) ∧
    ∀ page ∈ errorPages, response w s = errorPage page.1 page.2 → PageInOrder s page.1 page.2

/-- The condition on a step: requests are handled in order, and no write is trimmed by
a size that narrowed. -/
def Stream.Orderly (w : World) (s : Stream) : StreamLabel → Prop
  | .run =>
    match s.point with
    | .block => KeepsOrder w s.conn
    | .flush | .out => TrimsExactly s.conn.http.outBuffer_ s.conn.wire.writes
    | _ => True
  | _ => True

instance (s : Conn) (err_num : Nat) (msg : Bytes) : Decidable (PageInOrder s err_num msg) :=
  inferInstanceAs (Decidable (_ ∧ _))

instance (w : World) (s : Conn) : Decidable (KeepsOrder w s) :=
  inferInstanceAs (Decidable (_ ∧ _))

instance (w : World) (s : Stream) : (l : StreamLabel) → Decidable (s.Orderly w l)
  | .run => by unfold Stream.Orderly; dsimp only; split <;> infer_instance
  | .event _ _ => .isTrue trivial
  | .expire => .isTrue trivial

/-! ### One step -/

namespace Stream

/-- A handler that leaves the output and `error_` alone. -/
theorem Intact.congr {s : Stream} (intact : s.Intact) {conn : Conn} {point : Point}
    (sent : conn.wire.sent = s.conn.wire.sent)
    (outBuffer : conn.http.outBuffer_ = s.conn.http.outBuffer_)
    (error : conn.http.error_ = s.conn.http.error_) :
    Intact ⟨conn, point, s.responses⟩ where
  taken := by rw [sent]; exact intact.taken
  pending alive := by
    rw [sent, outBuffer]
    exact intact.pending (error.symm.trans alive)

/-- The writes of a page that goes out in order take a prefix of it. -/
theorem pageWrites_prefix {s : Conn} {err_num : Nat} {msg : Bytes}
    (ordered : PageInOrder s err_num msg) :
    (pageWrites err_num msg s.wire.writes).1.accepted ++
      (pageWrites err_num msg s.wire.writes).2.accepted <+: errorPage err_num msg := by
  obtain ⟨_, whole | stopped⟩ := ordered
  · rw [whole]
    exact (List.prefix_append_right_inj _).mpr (writenRaw_accepted _ _)
  · rw [stopped, List.append_nil]
    exact (writenRaw_accepted _ _).trans (List.prefix_append _ _)

/-- A write moves bytes from the front of what is pending to the socket. -/
theorem handleWrite_moves {s : Conn} (exact : TrimsExactly s.http.outBuffer_ s.wire.writes) :
    ∃ moved, moved <+: s.http.outBuffer_ ∧ (handleWrite s).wire.sent = s.wire.sent ++ moved ∧
      (s.http.error_ = true → moved = []) ∧
      ((handleWrite s).http.error_ = false →
        s.http.error_ = false ∧ moved ++ (handleWrite s).http.outBuffer_ = s.http.outBuffer_) := by
  unfold handleWrite
  split
  next active =>
    refine ⟨(writen s.http.outBuffer_ s.wire.writes).accepted, writen_prefix _ _, rfl, ?_, ?_⟩
    -- After a failure nothing is written.
    · intro failed
      rw [failed] at active
      exact absurd active.1 (by decide)
    -- While nothing failed the buffer loses what the socket took.
    · intro alive
      unfold afterWrite at alive
      simp only [Bool.or_eq_false_iff] at alive
      refine ⟨alive.1, writen_conserves exact ?_⟩
      intro failed
      rw [failed] at alive
      exact absurd alive.2 (by decide)
  next =>
    exact ⟨[], List.nil_prefix, (List.append_nil _).symm, fun _ => rfl, fun alive => ⟨alive, rfl⟩⟩

theorem Intact.handleWrite {s : Stream} (intact : s.Intact) {point : Point}
    (exact : TrimsExactly s.conn.http.outBuffer_ s.conn.wire.writes) :
    Intact ⟨handleWrite s.conn, point, s.responses⟩ := by
  obtain ⟨moved, front, sent, idle, alive⟩ := handleWrite_moves exact
  constructor
  · rw [sent]
    -- With `error_` set the pending bytes are not known, but none of them are sent.
    cases failed : s.conn.http.error_ with
    | true => rw [idle failed, List.append_nil]; exact intact.taken
    | false =>
      rw [← intact.pending failed]
      exact (List.prefix_append_right_inj _).mpr front
  · intro still
    obtain ⟨before, rest⟩ := alive still
    rw [sent, List.append_assoc, rest]
    exact intact.pending before

/-- Handling a request in order adds its response behind the earlier ones. -/
theorem Intact.readBlock {w : World} {s : Stream} (intact : s.Intact)
    (alive : s.conn.http.error_ = false) (ordered : KeepsOrder w s.conn) {point : Point} :
    Intact ⟨readBlock w s.conn, point, s.responses ++ [response w s.conn]⟩ := by
  obtain ⟨reply, whole, replies, failed⟩ := readBlock_response w s.conn
  obtain ⟨hello, pages⟩ := ordered
  have before := intact.pending alive
  -- The response comes behind the bytes sent and pending so far.
  have flat : (s.responses ++ [response w s.conn]).flatten =
      s.conn.wire.sent ++ s.conn.http.outBuffer_ ++ response w s.conn := by simp [before]
  have taken : s.conn.wire.sent <+: (s.responses ++ [response w s.conn]).flatten := by
    rw [flat, List.append_assoc]
    exact List.prefix_append _ _
  cases replies with
  | quiet kept unsent =>
    refine ⟨by rw [unsent]; exact taken, fun _ => ?_⟩
    rw [unsent, kept, flat, ← whole]
    simp [Reply.text]
  | appends answer kept unsent =>
    refine ⟨by rw [unsent]; exact taken, fun _ => ?_⟩
    rw [unsent, kept, flat, ← whole]
    simp [Reply.text]
  | hello assigned unsent =>
    refine ⟨by rw [unsent]; exact taken, fun _ => ?_⟩
    rw [unsent, assigned, flat, hello whole.symm, ← whole]
    simp [Reply.text]
  | page err_num msg member kept written =>
    refine ⟨?_, fun still => ?_⟩
    · have ordered := pages _ member whole.symm
      have front := pageWrites_prefix ordered
      rw [written, flat, ← whole, List.append_assoc, List.append_assoc]
      apply (List.prefix_append_right_inj _).mpr
      -- The page is written at once: with nothing pending, or without effect.
      rcases ordered.1 with empty | ⟨first, second⟩
      · rw [empty]
        exact front
      · rw [first, second]
        exact List.nil_prefix
    · have := (failed err_num msg rfl).symm.trans still
      cases this

/-- What the handlers know of `error_`: a request is only handled while nothing failed,
and after a failure the connection is closed. -/
structure Live (s : Stream) : Prop where
  block : s.point = .block → s.conn.http.error_ = false
  waiting : s.point = .waiting → s.conn.http.error_ = true →
    s.conn.http.connectionState_ = .disconnected

structure Invariant (s : Stream) : Prop where
  intact : s.Intact
  live : s.Live

theorem afterRead_ne (s : Conn) : s.afterRead ≠ .block ∧ s.afterRead ≠ .waiting := by
  unfold Conn.afterRead
  split <;> exact ⟨nofun, nofun⟩

/-- Behind a point that is neither `block` nor `waiting` nothing is to be shown of `error_`. -/
theorem live_of_ne {s : Stream} (point : s.point ≠ .block ∧ s.point ≠ .waiting) : s.Live :=
  ⟨fun at_block => absurd at_block point.1, fun at_rest => absurd at_rest point.2⟩

/-- An event only comes upon a connection that did not fail. -/
theorem Live.alive {s : Stream} (live : s.Live) (rest : s.point = .waiting)
    (open_ : s.conn.http.connectionState_ ≠ .disconnected) : s.conn.http.error_ = false := by
  cases failed : s.conn.http.error_ with
  | false => rfl
  | true => exact absurd (live.waiting rest failed) open_

theorem begin_live {s : Stream} (live : s.Live) (rest : s.point = .waiting)
    (open_ : s.conn.http.connectionState_ ≠ .disconnected) (a : Arrival) (revents : Events) :
    (s.begin a revents).Live := by
  unfold begin
  dsimp only
  split
  · exact ⟨fun at_block => absurd (rest.symm.trans at_block) nofun, fun _ => live.waiting rest⟩
  · split
    · exact ⟨fun _ => live.alive rest open_, nofun⟩
    · exact live_of_ne (afterRead_ne _)

theorem reset_error (s : Conn) : (reset s).http.error_ = s.http.error_ := by
  obtain ⟨timer, http⟩ := reset_http s
  rw [http]

theorem step_live {w : World} {s : Stream} {l : StreamLabel} {s' : Stream} (live : s.Live)
    (taken : step w s l = some s') : s'.Live := by
  cases step_steps taken with
  | event rest open_ => exact begin_live live rest open_ _ _
  | block => exact live_of_ne ⟨nofun, nofun⟩
  | flush => exact live_of_ne ⟨nofun, nofun⟩
  | reset _ done next =>
    -- A further round comes only after one that did not fail.
    rw [next]
    split
    · exact ⟨fun _ => (reset_error s.conn).trans done.1, nofun⟩
    · exact live_of_ne (afterRead_ne _)
  | rearm => exact live_of_ne (afterRead_ne _)
  | out => exact live_of_ne ⟨nofun, nofun⟩
  | conn =>
    -- `handleConn` closes a connection that failed.
    obtain ⟨channel, timer, state, _, http⟩ := handleConn_http s.conn
    refine ⟨nofun, fun _ failed => ?_⟩
    rw [http] at failed
    exact handleConn_failed failed
  | expire rest =>
    refine ⟨fun at_block => absurd (rest.symm.trans at_block) nofun, fun _ _ => ?_⟩
    rw [handleClose_http]

theorem step_intact {w : World} {s : Stream} {l : StreamLabel} {s' : Stream} (inv : s.Invariant)
    (ordered : s.Orderly w l) (taken : step w s l = some s') : s'.Intact := by
  unfold Orderly at ordered
  -- Only the block and the two writes touch the output; the others keep it and `error_`.
  cases step_steps taken with
  | event =>
    obtain ⟨point, begun⟩ := begin_conn s _ _
    rw [begun]
    exact inv.intact.congr rfl rfl rfl
  | block point =>
    rw [point] at ordered
    exact inv.intact.readBlock (inv.live.block point) ordered
  | flush point =>
    rw [point] at ordered
    refine flush_cases s.conn ?stays ?writes
    case stays => exact inv.intact.congr rfl rfl rfl
    case writes => exact fun _ => inv.intact.handleWrite ordered
  | reset =>
    obtain ⟨timer, http⟩ := reset_http s.conn
    refine inv.intact.congr ?_ ?_ ?_
    · rw [reset_wire]
    · rw [http]
    · rw [http]
  | rearm =>
    obtain ⟨events, rearmed⟩ := rearm_events s.conn
    rw [rearmed]
    exact inv.intact.congr rfl rfl rfl
  | out point =>
    rw [point] at ordered
    exact inv.intact.handleWrite ordered
  | conn =>
    obtain ⟨channel, timer, state, _, http⟩ := handleConn_http s.conn
    refine inv.intact.congr ?_ ?_ ?_
    · rw [handleConn_wire]
    · rw [http]
    · rw [http]
  | expire =>
    refine inv.intact.congr ?_ ?_ ?_
    · rw [handleClose_wire]
    · rw [handleClose_http]
    · rw [handleClose_http]

theorem step_invariant {w : World} (s : Stream) (l : StreamLabel) (s' : Stream)
    (inv : s.Invariant) (ordered : s.Orderly w l) (taken : step w s l = some s') :
    s'.Invariant :=
  ⟨step_intact inv ordered taken, step_live inv.live taken⟩

theorem fresh_invariant (s : Stream) (fresh : s.Fresh) : s.Invariant := by
  obtain ⟨⟨this, loop, fd, now, epollCtl, epoll, conn⟩, point, responses⟩ := fresh
  have quiet : Quiet { Wire.idle with now := now, epollCtl := epollCtl } := ⟨rfl, nofun⟩
  -- `newEvent` does nothing that the peer sees.
  have alike : Alike ⟨.new this loop fd, { Wire.idle with now := now, epollCtl := epollCtl },
      epoll⟩ s.conn := by rw [conn]; exact newEvent_alike quiet
  obtain ⟨channel, timer, http⟩ := alike.http
  have sent : s.conn.wire.sent = [] := alike.sent
  refine ⟨⟨?_, ?_⟩, ⟨?_, ?_⟩⟩
  · rw [sent]; exact List.nil_prefix
  · intro _
    rw [sent, http, responses]
    rfl
  · intro at_block
    exact absurd (point.symm.trans at_block) nofun
  · intro _ failed
    rw [http] at failed
    cases failed

end Stream

/-- In every run that keeps the order the output is the responses in the order of the
requests. -/
theorem response_stream_integrity {w : World} {s : Stream}
    (reached : (Stream.machine w).ReachableUnder (Stream.Orderly w) s) :
    s.conn.wire.sent <+: s.responses.flatten ∧ (s.conn.http.error_ = false →
      s.conn.wire.sent ++ s.conn.http.outBuffer_ = s.responses.flatten) := by
  have inv := Machine.invariant_under Stream.fresh_invariant Stream.step_invariant reached
  exact ⟨inv.intact.taken, inv.intact.pending⟩

def Stream.sample : Stream := ⟨.sample, .waiting, []⟩

theorem Stream.sample_fresh : Stream.sample.Fresh := ⟨⟨0, 0, 5, ⟨0, 0⟩, true, .new, rfl⟩, rfl, rfl⟩

/-- The chunk in one read, and a socket that blocks once it has taken five bytes. -/
def blockedArrival (chunk : Bytes) : Arrival :=
  { arrivalOf chunk with writes := [.accepted 5, .eagain] }

def healthRequest : Bytes := bytes "GET /api/health HTTP/1.1\r\nA: b\r\n\r\n"

/-- Two requests of which the second is answered behind the pending output of the first. -/
def backPressure : List StreamLabel :=
  [.event (blockedArrival (healthRequest ++ healthRequest)) EPOLLIN, .run, .run, .run, .run]

theorem response_stream_integrity_backPressure :
    ∃ s, (Stream.machine .bare).exec .sample backPressure = some s ∧
      s.responses.length = 2 ∧ s.conn.wire.sent.length = 5 ∧
      s.conn.wire.sent <+: s.responses.flatten ∧ (s.conn.http.error_ = false →
        s.conn.wire.sent ++ s.conn.http.outBuffer_ = s.responses.flatten) := by
  obtain ⟨s, reached, two, five⟩ := Machine.exec_any (M := Stream.machine .bare)
    (fun s => s.responses.length = 2 ∧ s.conn.wire.sent.length = 5) .sample backPressure
    (by decide)
  have ordered : (Stream.machine .bare).Along (fun s l _ => s.Orderly .bare l) .sample
      backPressure := by decide +kernel
  exact ⟨s, reached, two, five,
    response_stream_integrity (Machine.reachable_exec (.init Stream.sample_fresh) ordered reached)⟩

def helloRequest : Bytes := bytes "GET /hello HTTP/1.1\r\nA: b\r\n\r\n"

/-- The rest of the first greeting is overwritten by the second. -/
theorem hello_overwrites_pending : ∃ s, (Stream.machine .bare).Reachable s ∧
    s.conn.http.error_ = false ∧ ¬ s.conn.wire.sent <+: s.responses.flatten ∧
    s.conn.wire.sent ++ s.conn.http.outBuffer_ ≠ s.responses.flatten := by
  let labels : List StreamLabel :=
    [.event (blockedArrival (helloRequest ++ helloRequest)) EPOLLIN, .run, .run, .run, .run, .run]
  obtain ⟨s, reached, broken⟩ := Machine.exec_any (M := Stream.machine .bare)
    (fun s => s.conn.http.error_ = false ∧ ¬ s.conn.wire.sent <+: s.responses.flatten ∧
      s.conn.wire.sent ++ s.conn.http.outBuffer_ ≠ s.responses.flatten) .sample labels
    (by decide)
  have allowed : (Stream.machine .bare).Along (fun _ _ _ => True) .sample labels := by
    decide
  exact ⟨s, Machine.reachable_exec (.init Stream.sample_fresh) allowed reached, broken⟩

end LightAgent

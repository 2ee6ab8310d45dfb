import LightAgent.EventLoop
import LightAgent.Library.Simulation
import LightAgent.Reactor.Confinement
import LightAgent.Reactor.Lifetimes

/-!
# Connections are handed over through queueInLoop

The accepting thread gives a connection to a loop by queueing its `newEvent`. To one loop, what
the reactor does is a run of `EventLoop` in which every call of `queueInLoop` comes from another
thread, with the connections as functors: so its guarantees are those of the reactor.
-/
namespace LightAgent

open Library Function

/-- What can be seen of the queue of a loop. -/
inductive Handoff where
  /-- `newEvent` of the connection is queued -/
  | handed (c : ConnId)
  /-- `newEvent` of the connection is called -/
  | entered (c : ConnId)
  deriving DecidableEq, Repr

/-- The connections that are handed over, in their order. -/
def handedOver (hs : List Handoff) : List ConnId :=
  hs.filterMap fun | .handed c => some c | .entered _ => none

/-- The connections that enter the loop, in their order. -/
def entries (hs : List Handoff) : List ConnId :=
  hs.filterMap fun | .handed _ => none | .entered c => some c

@[simp] theorem handedOver_append (hs hs' : List Handoff) :
    handedOver (hs ++ hs') = handedOver hs ++ handedOver hs' := List.filterMap_append

@[simp] theorem entries_append (hs hs' : List Handoff) :
    entries (hs ++ hs') = entries hs ++ entries hs' := List.filterMap_append

@[simp] theorem handedOver_handed (c : ConnId) : handedOver [.handed c] = [c] := rfl

@[simp] theorem handedOver_entered (c : ConnId) : handedOver [.entered c] = [] := rfl

@[simp] theorem entries_handed (c : ConnId) : entries [.handed c] = [] := rfl

@[simp] theorem entries_entered (c : ConnId) : entries [.entered c] = [c] := rfl

@[simp] theorem handedOver_nil : handedOver [] = [] := rfl

@[simp] theorem entries_nil : entries [] = [] := rfl

/-- Where the loop stands, with a channel of a client for each connection in `ret`. -/
def LoopPoint.eventLoop : LoopPoint → EventLoop.Point ConnId
  | .polling => .polling
  | .handling ret => .handling (ret.map fun _ => .client)
  | .functors _ rest => .running rest
  | .expiring => .expiring

/-! ### What EventLoop shows -/

namespace EventLoop

def handoffs (s : EventLoop Unit ConnId) : Label Unit ConnId → List Handoff
  | .queueInLoop _ cb => [.handed cb]
  | .run => (s.point.functors.head?.map .entered).toList
  | _ => []

/-- The two histories are what has been seen. -/
theorem recorded {s s' : EventLoop Unit ConnId} {l : Label Unit ConnId} {hs : List Handoff}
    (record : s.pushed = handedOver hs ∧ s.executed = entries hs) (taken : s.step l = some s') :
    s'.pushed = handedOver (hs ++ s.handoffs l) ∧ s'.executed = entries (hs ++ s.handoffs l) := by
  rw [handedOver_append, entries_append, ← record.1, ← record.2]
  cases step_steps taken with
  | queueInLoop cb idle caller => simp [handoffs]
  | run point => simp [handoffs, point, Point.functors]
  | _ => simp [handoffs, EventLoop.wakeup]

theorem exec_recorded {s : EventLoop Unit ConnId} {ks : List (Label Unit ConnId)}
    (run : (machine Unit ConnId).exec new ks = some s) :
    s.pushed = handedOver ((machine Unit ConnId).output handoffs new ks) ∧
      s.executed = entries ((machine Unit ConnId).output handoffs new ks) :=
  Machine.invariant_output (M := machine Unit ConnId)
    (I := fun s hs => s.pushed = handedOver hs ∧ s.executed = entries hs)
    (fun _ _ _ _ => recorded) (show new.pushed = handedOver [] ∧ new.executed = entries [] from
      ⟨rfl, rfl⟩) run

theorem exec_sound {s : EventLoop Unit ConnId} {ks : List (Label Unit ConnId)}
    (run : (machine Unit ConnId).exec new ks = some s) : s.Sound :=
  Machine.invariant_exec (M := machine Unit ConnId) (fun _ _ _ => Sound.step) sound_new run

abbrev Shows (s : EventLoop Unit ConnId) (hs : List Handoff) (s' : EventLoop Unit ConnId) : Prop :=
  (machine Unit ConnId).Puts handoffs s hs s'

theorem shows_step (s : EventLoop Unit ConnId) (l : Label Unit ConnId) (s' : EventLoop Unit ConnId)
    (taken : s.step l = some s') : s.Shows (s.handoffs l) s' :=
  .step taken

end EventLoop

namespace Reactor

variable {r r' : Reactor} {ℓ : LoopId} {l : Label}

/-- What a step of the reactor does at the queue of the loop. -/
def handoffs (ℓ : LoopId) (r : Reactor) : Label → List Handoff
  | .accept fd ℓ' nonBlocking =>
    if Usable fd nonBlocking ∧ ℓ' = ℓ then [.handed r.nextConn] else []
  | .runFunctor ℓ' _ =>
    if ℓ' = ℓ then ((r.loops ℓ).point.waiting.head?.map .entered).toList else []
  | _ => []

/-! ### A loop and its queue -/

/-- `handNewConn` has pushed onto the queue of the loop, and has still to call `wakeup`. -/
def wakes (r : Reactor) (ℓ : LoopId) : Bool := (r.req_info.bind r.conns).any (·.http.loop_ = ℓ)

theorem wakes_idle (idle : r.req_info = none) (ℓ : LoopId) : r.wakes ℓ = false := by
  unfold wakes
  rw [idle]
  rfl

/-- Where a loop stands, what is queued and whether a `wakeup` is to come, before and behind a step
that shows this. -/
inductive Moves : LoopPoint → List ConnId → Bool → List Handoff → LoopPoint → List ConnId → Bool → Prop
  | stays (point : LoopPoint) (pending : List ConnId) (wakes : Bool) :
      Moves point pending wakes [] point pending wakes
  | handed (point : LoopPoint) (pending : List ConnId) (c : ConnId) :
      Moves point pending false [.handed c] point (pending ++ [c]) true
  | woken (point : LoopPoint) (pending : List ConnId) : Moves point pending true [] point pending false
  | polled (pending ret : List ConnId) (woken wakes : Bool) : ret ≠ [] ∨ woken = true →
      Moves .polling pending wakes [] (.handling ret) pending wakes
  | handled (pending : List ConnId) (c : ConnId) (ret : List ConnId) (wakes : Bool) :
      Moves (.handling (c :: ret)) pending wakes [] (.handling ret) pending wakes
  | swapped (pending : List ConnId) (wakes : Bool) :
      Moves (.handling []) pending wakes [] (.functors [] pending) [] wakes
  | entered (pending done : List ConnId) (c : ConnId) (rest : List ConnId) (wakes : Bool) :
      Moves (.functors done (c :: rest)) pending wakes [.entered c] (.functors (done ++ [c]) rest)
        pending wakes
  | ended (pending done : List ConnId) (wakes : Bool) :
      Moves (.functors done []) pending wakes [] .expiring pending wakes
  | expired (pending : List ConnId) (wakes : Bool) :
      Moves .expiring pending wakes [] .polling pending wakes

theorem accept_moves (free : r.req_info = none) (fd : Fd) (ℓ' : LoopId) (nonBlocking : Bool)
    (ℓ : LoopId) : Moves (r.loops ℓ).point (r.loops ℓ).pendingFunctors_ (r.wakes ℓ)
      (r.handoffs ℓ (.accept fd ℓ' nonBlocking)) ((r.acceptConn fd ℓ' nonBlocking).loops ℓ).point
      ((r.acceptConn fd ℓ' nonBlocking).loops ℓ).pendingFunctors_
      ((r.acceptConn fd ℓ' nonBlocking).wakes ℓ) := by
  rw [acceptConn_point, wakes_idle free]
  simp only [handoffs]
  by_cases usable : Usable fd nonBlocking
  · rw [acceptConn_usable r _ usable]
    have pending := (queueInLoop_loop r ℓ' r.nextConn ℓ).2.2
    change Moves _ _ _ _ _ ((r.queueInLoop ℓ' r.nextConn).loops ℓ).pendingFunctors_ _
    rw [pending]
    by_cases here : ℓ' = ℓ
    · have wakes_ : wakes { r.queueInLoop ℓ' r.nextConn with
          isOpen := update r.isOpen fd true
          conns := update r.conns r.nextConn (some ⟨.new r.nextConn ℓ' fd, .idle⟩)
          nextConn := r.nextConn + 1
          req_info := some r.nextConn } ℓ = true := by simp [wakes, HttpData.new, here]
      rw [wakes_, if_pos ⟨usable, here⟩, if_pos here.symm]
      exact .handed _ _ _
    · have wakes_ : wakes { r.queueInLoop ℓ' r.nextConn with
          isOpen := update r.isOpen fd true
          conns := update r.conns r.nextConn (some ⟨.new r.nextConn ℓ' fd, .idle⟩)
          nextConn := r.nextConn + 1
          req_info := some r.nextConn } ℓ = false := by simp [wakes, HttpData.new, here]
      rw [wakes_, if_neg fun both => here both.2, if_neg (Ne.symm here), List.append_nil]
      exact .stays _ _ _
  · obtain ⟨isOpen, same⟩ := acceptConn_unusable r ℓ' usable
    have idle : wakes { r with isOpen := isOpen } ℓ = false := wakes_idle free ℓ
    rw [same, if_neg fun both => usable both.1, idle]
    exact .stays _ _ _

theorem call_queue {c : ConnId} {a : Arrival} {handler : Conn → Conn}
    (called : r.call c a handler = some r') (ℓ : LoopId) :
    (r'.loops ℓ).point = (r.loops ℓ).point ∧
      (r'.loops ℓ).pendingFunctors_ = (r.loops ℓ).pendingFunctors_ := by
  obtain ⟨cl, _, rfl⟩ := Option.map_eq_some_iff.mp called
  exact ⟨setEpoll_point r _ _ ℓ, setEpoll_pending r _ _ ℓ⟩

/-- A step of the thread of the loop. -/
theorem own_moves {w : ConnId → World} (taken : step w r l = some r') (own : l.thread = some ℓ)
    (wakes : Bool) : Moves (r.loops ℓ).point (r.loops ℓ).pendingFunctors_ wakes (r.handoffs ℓ l)
      (r'.loops ℓ).point (r'.loops ℓ).pendingFunctors_ wakes := by
  cases step_steps taken with
  | accept fd ℓ₁ nonBlocking _ _ => cases own
  | accepted c _ => cases own
  | poll ℓ₁ events woken point _ =>
    cases own
    have frame := reports_loop r ℓ events ℓ
    unfold pollEvents
    dsimp only
    rw [setPoint_point, setPoint_pending, frame.pendingFunctors_, point]
    generalize events.filterMap (fun e => (r.loops ℓ).epoll.fd2chan_ e.1) = ret
    by_cases idle : ret = [] ∧ (!woken) = true
    · rw [if_pos idle]
      exact .stays _ _ _
    · rw [if_neg idle]
      refine .polled _ ret woken _ ?_
      cases woken with
      | true => exact .inr rfl
      | false => exact .inl fun nothing => idle ⟨nothing, rfl⟩
  | handle ℓ₁ a c ret r₁ point called =>
    cases own
    have frame := release_loop r₁ c ℓ
    obtain ⟨stands, pending⟩ := call_queue called ℓ
    rw [frame.point, frame.pendingFunctors_, stands, pending, setPoint_point, setPoint_pending, point]
    exact .handled _ c ret _
  | startFunctors ℓ₁ point =>
    cases own
    unfold swapFunctors
    rw [point]
    simp only [update_self]
    exact .swapped _ _
  | runFunctor ℓ₁ a done c rest r₁ point called =>
    cases own
    obtain ⟨stands, pending⟩ := call_queue called ℓ
    rw [stands, pending, setPoint_point, setPoint_pending]
    simp only [handoffs, point, LoopPoint.waiting, if_true]
    exact .entered _ done c rest _
  | endFunctors ℓ₁ done point =>
    cases own
    have frame := releases_loop (r.setPoint ℓ .expiring) done ℓ
    rw [frame.point, frame.pendingFunctors_, setPoint_point, setPoint_pending, point]
    exact .ended _ done _
  | drop ℓ₁ a node point found _ =>
    cases own
    unfold pop
    rw [setEpoll_point, setEpoll_pending]
    exact .stays _ _ _
  | close ℓ₁ a node c r₁ point found refers called =>
    cases own
    have frame := release_loop r₁ c ℓ
    obtain ⟨stands, pending⟩ := call_queue called ℓ
    unfold pop at stands pending
    rw [frame.point, frame.pendingFunctors_, stands, pending, setEpoll_point, setEpoll_pending]
    exact .stays _ _ _
  | endExpire ℓ₁ now point =>
    cases own
    rw [setPoint_point, setPoint_pending, point]
    exact .expired _ _

/-- A loop does not call `wakeup` for `handNewConn`, nor give its connection to another loop. -/
theorem step_wakes {w : ConnId → World} (sound : r.Sound) (taken : step w r l = some r')
    {ℓ₁ : LoopId} (own : l.thread = some ℓ₁) (ℓ : LoopId) : r'.wakes ℓ = r.wakes ℓ := by
  have req_info : r'.req_info = r.req_info := by
    apply kept_req_info taken
    · rintro fd ℓ nonBlocking rfl
      cases own
    · rintro rfl
      cases own
  unfold wakes
  rw [req_info]
  cases info : r.req_info with
  | none => rfl
  | some d =>
    obtain ⟨cl, alive⟩ := sound.local_ d info
    obtain ⟨cl', alive'⟩ := (sound.step r l r' taken).local_ d (req_info.trans info)
    have same : cl'.http.loop_ = cl.http.loop_ := by
      by_cases here : cl.http.loop_ = ℓ₁
      · by_cases here' : cl'.http.loop_ = ℓ₁
        · exact here'.trans here.symm
        · -- It was in that other loop before.
          have part_ := part_conns alive' rfl
          rw [step_away sound own here' taken] at part_
          have there : r.conns d = some cl' := (Option.filter_eq_some_iff.mp part_).1
          cases alive.symm.trans there
          rfl
      · have part_ := part_conns alive rfl
        rw [← step_away sound own here taken] at part_
        have there : r'.conns d = some cl := (Option.filter_eq_some_iff.mp part_).1
        cases alive'.symm.trans there
        rfl
    simp [alive, alive', same]

theorem step_moves {w : ConnId → World} (sound : r.Sound) (taken : step w r l = some r')
    (ℓ : LoopId) : Moves (r.loops ℓ).point (r.loops ℓ).pendingFunctors_ (r.wakes ℓ) (r.handoffs ℓ l)
      (r'.loops ℓ).point (r'.loops ℓ).pendingFunctors_ (r'.wakes ℓ) := by
  cases thread : l.thread with
  | some ℓ' =>
    rw [step_wakes sound taken thread]
    by_cases own : ℓ' = ℓ
    · subst own
      exact own_moves taken thread _
    · -- Another loop leaves this one as it is.
      have away := step_away sound thread (Ne.symm own) taken
      have same : r'.loops ℓ = r.loops ℓ := by rw [← part_loop r' ℓ, away, part_loop]
      have silent : r.handoffs ℓ l = [] := by
        cases l with
        | accept fd ℓ₁ nonBlocking => cases thread
        | runFunctor ℓ₁ a =>
          cases thread
          exact if_neg own
        | _ => rfl
      rw [same, silent]
      exact .stays _ _ _
  | none =>
    cases step_steps taken with
    | accept fd ℓ' nonBlocking free _ => exact accept_moves free fd ℓ' nonBlocking ℓ
    | accepted c _ =>
      have frame := release_loop { r with req_info := none } c ℓ
      rw [frame.point, frame.pendingFunctors_, wakes_idle (release_req_info { r with req_info := none } c)]
      cases r.wakes ℓ with
      | false => exact .stays _ _ _
      | true => exact .woken _ _
    | _ => cases thread

/-! ### The refinement -/

/-- The loop is this one, and `handNewConn` is the thread that queues in it. -/
structure Stands (point : LoopPoint) (pending : List ConnId) (wakes : Bool)
    (e : EventLoop Unit ConnId) : Prop where
  pendingFunctors_ : e.pendingFunctors_ = pending
  point : e.point = point.eventLoop
  quit_ : e.quit_ = false
  idle : e.call none = .idle
  call : e.call (some ()) = if wakes then .pushed else .idle

/-- What `Epoll::poll` returns, with the wakeup or the listening channel first. -/
def activeOf (efd : Eventfd) (woken : Bool) (ret : List ConnId) : List EventLoop.Active :=
  (if woken then [if efd.Pending then .wakeup else .client] else []) ++ ret.map fun _ => .client

/-- What `epoll_wait` returns is handled up to the channels of the connections. -/
theorem polled_simulated {e : EventLoop Unit ConnId} (at_ : e.point = .polling)
    (idle : e.call none = .idle) {woken : Bool} {ret : List ConnId} (some_ : ret ≠ [] ∨ woken = true) :
    ∃ efd, e.Shows [] { e with point := .handling (ret.map fun _ => .client), wakeupFd_ := efd } := by
  let active := activeOf e.wakeupFd_ woken ret
  let woke := { e.wakeupFd_ with edge := e.wakeupFd_.edge && !active.contains .wakeup }
  have clients : EventLoop.Active.wakeup ∉ ret.map fun _ => .client := by simp
  have listed : EventLoop.Active.wakeup ∈ active → e.wakeupFd_.Pending := by
    intro member
    simp only [active, activeOf] at member
    split at member
    · split at member
      · assumption
      · simp at member
    · simp at member
  have once : active.count .wakeup ≤ 1 := by
    have none_ := List.count_eq_zero.mpr clients
    simp only [active, activeOf, List.count_append, none_]
    split
    · exact List.count_le_length
    · exact Nat.zero_le _
  have active_ : active ≠ [] := by
    intro nothing
    obtain ⟨front, back⟩ := List.append_eq_nil_iff.mp nothing
    rcases some_ with some_ | woken
    · exact some_ (List.map_eq_nil_iff.mp back)
    · simp [woken] at front
  have polls := EventLoop.shows_step e (.poll active)
    { e with point := .handling active, wakeupFd_ := woke } (by
      simp only [EventLoop.step, at_]
      rw [if_pos ⟨once, listed⟩, if_neg active_])
  cases woken with
  | false => exact ⟨woke, polls⟩
  | true =>
    -- The channel in front is the wakeup channel where that is reported, else the listening one.
    by_cases pending : e.wakeupFd_.Pending
    · have front : active = .wakeup :: ret.map fun _ => .client := by
        simp [active, activeOf, pending]
      have reads := EventLoop.shows_step { e with point := .handling active, wakeupFd_ := woke } .handled
        { e with point := .handling (ret.map fun _ => .client), wakeupFd_ := woke.read }
        (by simp [EventLoop.step, front])
      exact ⟨woke.read, polls.trans reads⟩
    · have front : active = .client :: ret.map fun _ => .client := by
        simp [active, activeOf, pending]
      have handles := EventLoop.shows_step { e with point := .handling active, wakeupFd_ := woke }
        .handled { e with point := .handling (ret.map fun _ => .client), wakeupFd_ := woke }
        (by simp [EventLoop.step, front, idle])
      exact ⟨woke, polls.trans handles⟩

theorem Moves.simulated {point point' : LoopPoint} {pending pending' : List ConnId}
    {wakes wakes' : Bool} {hs : List Handoff}
    (moves : Moves point pending wakes hs point' pending' wakes')
    {e : EventLoop Unit ConnId} (stands : Stands point pending wakes e) :
    ∃ e', e.Shows hs e' ∧ Stands point' pending' wakes' e' := by
  obtain ⟨pendingFunctors_, at_, quit_, idle, call⟩ := stands
  cases moves with
  | stays => exact ⟨e, .refl e, pendingFunctors_, at_, quit_, idle, call⟩
  | handed _ _ c =>
    let pushed := { e with
      pendingFunctors_ := e.pendingFunctors_ ++ [c]
      pushed := e.pushed ++ [c]
      call := update e.call (some ()) .pushed }
    have pushes := EventLoop.shows_step e (.queueInLoop (some ()) c) pushed
      (by simp [EventLoop.step, call, pushed])
    refine ⟨_, pushes, congrArg (· ++ [c]) pendingFunctors_, at_, quit_, ?_, ?_⟩
    · simp [pushed, idle]
    · simp [pushed]
  | woken =>
    have wakes := EventLoop.shows_step e (.wakeup (some ())) (e.wakeup (some ()))
      (by simp [EventLoop.step, call])
    refine ⟨_, wakes, pendingFunctors_, at_, quit_, ?_, ?_⟩
    · simp [EventLoop.wakeup, idle]
    · simp [EventLoop.wakeup]
  | polled _ ret woken _ some_ =>
    obtain ⟨efd, polls⟩ := polled_simulated at_ idle some_
    exact ⟨_, polls, pendingFunctors_, rfl, quit_, idle, call⟩
  | handled _ c ret =>
    have handles := EventLoop.shows_step e .handled
      { e with point := .handling (ret.map fun _ => .client) }
      (by simp [EventLoop.step, at_, LoopPoint.eventLoop, idle])
    exact ⟨_, handles, pendingFunctors_, rfl, quit_, idle, call⟩
  | swapped =>
    let starting := { e with point := .calling, callingPendingFunctors_ := true }
    have starts := EventLoop.shows_step e .startFunctors starting
      (by simp [EventLoop.step, at_, LoopPoint.eventLoop, starting])
    have swaps := EventLoop.shows_step starting .swap _ rfl
    exact ⟨_, starts.trans swaps, rfl, congrArg EventLoop.Point.running pendingFunctors_, quit_, idle, call⟩
  | entered _ done c rest =>
    let inside := { e with point := .inFunctor rest, executed := e.executed ++ [c] }
    have runs := EventLoop.shows_step e .run inside
      (by simp [EventLoop.step, at_, LoopPoint.eventLoop, inside])
    have returns := EventLoop.shows_step inside .returned { inside with point := .running rest }
      (by simp [EventLoop.step, idle, inside])
    have shown : e.handoffs .run = [.entered c] := by
      simp [EventLoop.handoffs, at_, LoopPoint.eventLoop, EventLoop.Point.functors]
    rw [shown] at runs
    exact ⟨_, runs.trans returns, pendingFunctors_, rfl, quit_, idle, call⟩
  | ended =>
    have ends := EventLoop.shows_step e .endFunctors
      { e with point := .expiring, callingPendingFunctors_ := false }
      (by simp [EventLoop.step, at_, LoopPoint.eventLoop])
    exact ⟨_, ends, pendingFunctors_, rfl, quit_, idle, call⟩
  | expired =>
    let deciding := { e with point := .deciding }
    have expires := EventLoop.shows_step e .handleExpired deciding
      (by simp [EventLoop.step, at_, LoopPoint.eventLoop, deciding])
    have checks := EventLoop.shows_step deciding .check { deciding with point := .polling }
      (by simp [EventLoop.step, quit_, deciding])
    exact ⟨_, expires.trans checks, pendingFunctors_, rfl, quit_, idle, call⟩

/-- Each loop of the reactor is an `EventLoop`. -/
theorem loop_refines (w : ConnId → World) (ℓ : LoopId) :
    Machine.Refines (machine w) (EventLoop.machine Unit ConnId)
      (fun r e => r.Sound ∧ Stands (r.loops ℓ).point (r.loops ℓ).pendingFunctors_ (r.wakes ℓ) e)
      (handoffs ℓ) EventLoop.handoffs where
  init r start := by
    cases start
    have checks := EventLoop.shows_step .new .check { EventLoop.new with point := .polling } rfl
    exact ⟨.new, _, rfl, checks, sound_new, rfl, rfl, rfl, rfl, rfl⟩
  step r l r' e related taken := by
    obtain ⟨sound, stands⟩ := related
    obtain ⟨e', shows_, stands'⟩ := (step_moves sound taken ℓ).simulated stands
    exact ⟨e', shows_, sound.step r l r' taken, stands'⟩

/-! ### Each once -/

/-- The loop and the descriptor of the connection that the step makes. -/
def Label.made : Label → Option (LoopId × Fd)
  | .accept fd ℓ nonBlocking => if Usable fd nonBlocking then some (ℓ, fd) else none
  | _ => none

/-- The numbers, from this one on, of the connections that were made for the loop. -/
def numbersOf (ℓ : LoopId) (first : ConnId) (made : List (LoopId × Fd)) : List ConnId :=
  ((made.zipIdx first).filter (·.1.1 = ℓ)).map (·.2)

theorem numbersOf_nodup (ℓ : LoopId) (first : ConnId) (made : List (LoopId × Fd)) :
    (numbersOf ℓ first made).Nodup := by
  have numbers : (made.zipIdx first).map (·.2) = List.range' first made.length := by simp
  have all : ((made.zipIdx first).map (·.2)).Nodup := numbers ▸ List.nodup_range'
  exact all.sublist (List.filter_sublist.map _)

theorem numbersOf_cons (ℓ : LoopId) (first : ConnId) (m : LoopId × Fd) (made : List (LoopId × Fd)) :
    numbersOf ℓ first (m :: made) =
      (if m.1 = ℓ then [first] else []) ++ numbersOf ℓ (first + 1) made := by
  unfold numbersOf
  rw [List.zipIdx_cons, List.filter_cons]
  by_cases here : m.1 = ℓ
  · simp [here]
  · simp [here]

theorem accept_numbers (r : Reactor) (fd : Fd) (ℓ : LoopId) (nonBlocking : Bool) :
    (r.acceptConn fd ℓ nonBlocking).nextConn =
      r.nextConn + (Label.accept fd ℓ nonBlocking).made.toList.length := by
  unfold Label.made
  by_cases usable : Usable fd nonBlocking
  · rw [acceptConn_usable r _ usable]
    simp [usable]
  · obtain ⟨isOpen, same⟩ := acceptConn_unusable r ℓ usable
    rw [same]
    simp [usable]

/-- The number of the next connection counts those that were made. -/
theorem step_numbers {w : ConnId → World} (taken : step w r l = some r') :
    r'.nextConn = r.nextConn + l.made.toList.length := by
  have stored {s t : Reactor} {c : ConnId} {a : Arrival} {handler : Conn → Conn}
      (called : s.call c a handler = some t) : t.nextConn = s.nextConn := by
    obtain ⟨cl, _, rfl⟩ := Option.map_eq_some_iff.mp called
    rfl
  cases step_steps taken with
  | accept fd ℓ nonBlocking _ _ => exact accept_numbers r fd ℓ nonBlocking
  | accepted c _ => exact release_nextConn _ c
  | poll ℓ events woken _ _ => exact reports_nextConn ℓ r events
  | handle ℓ a c ret r₁ _ called =>
    have kept := stored called
    exact (release_nextConn r₁ c).trans kept
  | startFunctors ℓ _ => rfl
  | runFunctor ℓ a done c rest r₁ _ called =>
    have kept := stored called
    exact kept
  | endFunctors ℓ done _ =>
    have kept (cs : List ConnId) (r : Reactor) : (cs.foldl release r).nextConn = r.nextConn := by
      induction cs generalizing r with
      | nil => rfl
      | cons c cs ih => exact (ih (r.release c)).trans (release_nextConn r c)
    exact kept done _
  | drop ℓ a node _ _ _ => rfl
  | close ℓ a node c r₁ _ _ _ called =>
    have kept := stored called
    exact (release_nextConn r₁ c).trans kept
  | endExpire ℓ now _ => rfl

theorem step_handed (r : Reactor) (l : Label) (ℓ : LoopId) :
    handedOver (r.handoffs ℓ l) = numbersOf ℓ r.nextConn l.made.toList := by
  cases l with
  | accept fd ℓ' nonBlocking =>
    by_cases makes : Usable fd nonBlocking
    · by_cases here : ℓ' = ℓ
      · simp [handoffs, Label.made, makes, here, numbersOf]
      · simp [handoffs, Label.made, makes, here, numbersOf]
    · simp [handoffs, Label.made, makes, numbersOf]
  | runFunctor ℓ' a =>
    simp only [handoffs, Label.made]
    split
    · cases (r.loops ℓ).point.waiting.head? <;> rfl
    · rfl
  | _ => rfl

/-- What is handed over to a loop, as the connections are numbered. -/
theorem handed_numbers {w : ConnId → World} {ls : List Label}
    (run : (machine w).exec r ls = some r') (ℓ : LoopId) :
    handedOver ((machine w).output (handoffs ℓ) r ls) =
      numbersOf ℓ r.nextConn (ls.filterMap Label.made) := by
  induction ls generalizing r with
  | nil => rfl
  | cons l ls ih =>
    obtain ⟨next, taken, rest⟩ := Machine.exec_step run
    have count := step_numbers taken
    rw [Machine.output_cons _ taken, handedOver_append, ih rest, step_handed, List.filterMap_cons, count]
    cases l.made with
    | none => rfl
    | some m =>
      dsimp only
      rw [numbersOf_cons, Option.toList_some, numbersOf_cons]
      simp [numbersOf]

/-! ### In time -/

/-- What was queued has not been taken over yet, or has entered or is about to. -/
def Served (queued : List ConnId) (point : LoopPoint) (pending : List ConnId) (hs : List Handoff) :
    Prop :=
  (∃ ret, point = .handling ret ∧ queued <+: pending ∧ entries hs = []) ∨
    (queued <+: entries hs ++ point.waiting)

theorem Moves.served {point point' : LoopPoint} {pending pending' : List ConnId}
    {wakes wakes' : Bool} {hs hs' : List Handoff}
    (moves : Moves point pending wakes hs' point' pending' wakes') {queued : List ConnId}
    (served : Served queued point pending hs) : Served queued point' pending' (hs ++ hs') := by
  cases moves with
  | stays | woken => simpa using served
  | handed _ _ c =>
    rcases served with ⟨ret, at_, before, none_⟩ | served
    · exact .inl ⟨ret, at_, before.trans (List.prefix_append _ _), by simp [none_]⟩
    · exact .inr (by simpa using served)
  | polled _ ret woken _ _ =>
    rcases served with ⟨_, at_, _⟩ | served
    · cases at_
    · exact .inr (by simpa [LoopPoint.waiting] using served)
  | handled _ c ret _ =>
    rcases served with ⟨_, _, before, none_⟩ | served
    · exact .inl ⟨ret, rfl, before, by simp [none_]⟩
    · exact .inr (by simpa [LoopPoint.waiting] using served)
  | swapped =>
    -- Here the queue becomes the functors of this turn.
    rcases served with ⟨_, _, before, none_⟩ | served
    · exact .inr (by simpa [none_, LoopPoint.waiting] using before)
    · have before : queued <+: entries hs := by simpa [LoopPoint.waiting] using served
      exact .inr (by simpa [LoopPoint.waiting] using before.trans (List.prefix_append _ pending))
  | entered _ done c rest _ =>
    rcases served with ⟨_, at_, _⟩ | served
    · cases at_
    · exact .inr (by simpa [LoopPoint.waiting] using served)
  | ended =>
    rcases served with ⟨_, at_, _⟩ | served
    · cases at_
    · exact .inr (by simpa [LoopPoint.waiting] using served)
  | expired =>
    rcases served with ⟨_, at_, _⟩ | served
    · cases at_
    · exact .inr (by simpa [LoopPoint.waiting] using served)

/-- What is queued when a poll returns has entered when the loop polls again. -/
theorem entered_by_poll {w : ConnId → World} (sound : r.Sound) {ls : List Label}
    (run : (machine w).exec r ls = some r') {ret : List ConnId}
    (returned : (r.loops ℓ).point = .handling ret) (back : (r'.loops ℓ).point = .polling) :
    (r.loops ℓ).pendingFunctors_ <+: entries ((machine w).output (handoffs ℓ) r ls) := by
  have start : r.Sound ∧
      Served (r.loops ℓ).pendingFunctors_ (r.loops ℓ).point (r.loops ℓ).pendingFunctors_ [] :=
    ⟨sound, .inl ⟨ret, returned, List.prefix_rfl, rfl⟩⟩
  have served := Machine.invariant_output (M := machine w)
    (I := fun r' hs => r'.Sound ∧ Served (r.loops ℓ).pendingFunctors_ (r'.loops ℓ).point
      (r'.loops ℓ).pendingFunctors_ hs)
    (fun r l r' _ kept taken => ⟨kept.1.step r l r' taken, (step_moves kept.1 taken ℓ).served kept.2⟩)
    start run
  rcases served.2 with ⟨_, at_, _⟩ | served
  · cases back.symm.trans at_
  · simpa [back, LoopPoint.waiting] using served

/-! ### The whole way -/

/-- The queue of a loop lies between the connections that were made for it and those that have
entered it. -/
theorem queue_order {w : ConnId → World} {ls : List Label} (run : (machine w).exec new ls = some r)
    (ℓ : LoopId) : numbersOf ℓ 0 (ls.filterMap Label.made) =
      entries ((machine w).output (handoffs ℓ) new ls) ++ (r.loops ℓ).point.waiting ++
        (r.loops ℓ).pendingFunctors_ := by
  obtain ⟨e₀, e, start, ⟨ks, led, shown⟩, _, stands⟩ := (loop_refines w ℓ).run rfl run
  cases start
  obtain ⟨pushed, executed⟩ := EventLoop.exec_recorded led
  have order := (EventLoop.exec_sound led).order
  have waiting : e.point.functors = (r.loops ℓ).point.waiting := by
    rw [stands.point]
    cases (r.loops ℓ).point <;> rfl
  have numbers := handed_numbers run ℓ
  rw [← shown, ← pushed, order, executed, shown, waiting, stands.pendingFunctors_] at numbers
  exact numbers.symm

/-- In every run each connection that is made enters its loop once, behind all that were made for
the loop before it, and before the loop polls again once a poll has returned; a loop that polls
with connections queued has an event, or `handNewConn` has still to call `wakeup`. What the loop
does with its queue is what `EventLoop` may. -/
theorem handover {w : ConnId → World} {ls : List Label} (run : (machine w).exec new ls = some r)
    (ℓ : LoopId) :
    (∃ e, EventLoop.new.Shows ((machine w).output (handoffs ℓ) new ls) e ∧
      Stands (r.loops ℓ).point (r.loops ℓ).pendingFunctors_ (r.wakes ℓ) e ∧
      ((r.loops ℓ).point = .polling → (r.loops ℓ).pendingFunctors_ ≠ [] →
        e.wakeupFd_.Pending ∨ r.wakes ℓ = true)) ∧
    numbersOf ℓ 0 (ls.filterMap Label.made) =
      entries ((machine w).output (handoffs ℓ) new ls) ++ (r.loops ℓ).point.waiting ++
        (r.loops ℓ).pendingFunctors_ ∧
    (entries ((machine w).output (handoffs ℓ) new ls)).Nodup ∧
    ∀ ls' r' ret, (machine w).exec r ls' = some r' → (r.loops ℓ).point = .handling ret →
      (r'.loops ℓ).point = .polling →
      (r.loops ℓ).pendingFunctors_ <+: entries ((machine w).output (handoffs ℓ) r ls') := by
  obtain ⟨e₀, e, start, shows_, sound, stands⟩ := (loop_refines w ℓ).run rfl run
  cases start
  refine ⟨⟨e, shows_, stands, fun polls some_ => ?_⟩, queue_order run ℓ, ?_,
    fun ls' r' ret run' returned back => entered_by_poll sound run' returned back⟩
  · obtain ⟨ks, led, _⟩ := shows_
    rcases (EventLoop.exec_sound led).heard (by rw [stands.point, polls]; rfl) with
      empty | pending | ⟨t, pushing⟩
    · exact absurd (stands.pendingFunctors_.symm.trans empty) some_
    · exact .inl pending
    -- The thread between the push and the wakeup is the accepting one.
    · right
      cases t with
      | none => cases stands.idle.symm.trans pushing
      | some _ =>
        rw [stands.call] at pushing
        by_contra idle
        rw [if_neg idle] at pushing
        cases pushing
  · have once := numbersOf_nodup ℓ 0 (ls.filterMap Label.made)
    rw [queue_order run, List.append_assoc] at once
    exact once.of_append_left

/-- Two connections are handed over to a loop, one of them while it runs the functor of another. -/
def queueing : List Label := [.accept 5 1 true, .accepted, .accept 6 2 true, .accepted,
  .accept 7 1 true, .accepted, .poll 1 [] true, .startFunctors 1, .runFunctor 1 (quietAt 0),
  .accept 8 1 true, .accepted]

theorem handover_queueing : ∃ r, (machine fun _ => World.bare).exec new queueing = some r ∧
    (r.loops 1).point = .functors [0] [2] ∧ (r.loops 1).pendingFunctors_ = [3] ∧
    numbersOf 1 0 (queueing.filterMap Label.made) =
      entries ((machine fun _ => World.bare).output (handoffs 1) new queueing) ++ [2] ++ [3] ∧
    (entries ((machine fun _ => World.bare).output (handoffs 1) new queueing)).Nodup := by
  obtain ⟨r, run, point, pending⟩ := Machine.exec_any (M := machine fun _ => World.bare)
    (fun r => (r.loops 1).point = .functors [0] [2] ∧ (r.loops 1).pendingFunctors_ = [3])
    new queueing (by decide +kernel)
  obtain ⟨_, order, once, _⟩ := handover run 1
  rw [point, pending] at order
  exact ⟨r, run, point, pending, order, once⟩

end Reactor
end LightAgent

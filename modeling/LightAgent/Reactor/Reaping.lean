import LightAgent.Reactor.Leaks
import LightAgent.Reactor.Lifetimes

/-!
# Silent connections

Every timeout that is set for a connection is recorded with the time it is set at. The node a
connection has in the queue is the one of the record's last entry, so `handleExpired` closes the
connections that were silent for as long as they were given, and leaves no other.
-/
namespace LightAgent

open Library Function

/-- The timeout with which `handleEvents` ends in `updatePoller`, if it does. -/
def Conn.renewed (w : World) (s : Conn) : Option Nat :=
  if returnsEarly s.http.channel_.revents_ then none
  else match (decided w s).http.connExit with
    | .rearms _ timeout => some timeout
    | .strands | .closes => none

section Handlers

variable {w : World} {s : Conn} {link : ConnId → Option TimerId}

theorem renewed_le {timeout : Nat} (renewed : s.renewed w = some timeout) :
    timeout ≤ DEFAULT_KEEP_ALIVE_TIME := by
  have bounded {h : HttpData} {events : Events} (exit : h.connExit = .rearms events timeout) :
      timeout ≤ DEFAULT_KEEP_ALIVE_TIME := by
    unfold HttpData.connExit at exit
    dsimp only at exit
    repeat' split at exit
    all_goals cases exit
    all_goals decide
  unfold Conn.renewed at renewed
  split at renewed
  next => cases renewed
  next =>
    split at renewed
    next exit =>
      cases renewed
      exact bounded exit
    next => cases renewed
    next => cases renewed

/-- `add_timer` of a connection without a node gives it one. -/
theorem add_timer_deadlines_own (held : s.http.channel_.holder_ = some s.http.this)
    (none_left : s.deadlines = []) (timeout : Nat) :
    (add_timer s timeout).deadlines = [s.wire.now.msec + timeout] := by
  unfold add_timer
  rw [held]
  refine (deadlines_addTimer _ s.http.this timeout s.wire.now).trans ?_
  unfold Conn.deadlines at none_left
  rw [none_left, List.nil_append]

theorem newEvent_deadline (held : s.http.channel_.holder_ = some s.http.this)
    (none_left : s.deadlines = []) :
    (newEvent s).deadlines = [s.wire.now.msec + DEFAULT_EXPIRED_TIME] := by
  have entered := newEvent_entered s
  rw [← add_timer_deadlines_own held none_left]
  unfold Conn.deadlines
  rw [entered.timers.timerManager_, (newEvent_effect s).this, add_timer_this]

/-- The node of the connection is the one that this call has made, or an older one that an
ignored event has left. -/
theorem handleEvents_deadline (timed : s.Timed link)
    (held : s.http.channel_.holder_ = some s.http.this) {deadline : Nat}
    (left_ : deadline ∈ (handleEvents w s).deadlines) :
    (∃ timeout, s.renewed w = some timeout ∧ deadline = s.wire.now.msec + timeout) ∨
      s.renewed w = none ∧ deadline ∈ s.deadlines := by
  have settled : (decided w s).deadlines = [] := by
    unfold Conn.deadlines
    rw [(decided_frame w s).this]
    exact (decided_timed w timed).2.deadlines
  unfold Conn.renewed
  cases handleEvents_handled w s with
  | ignored early eq =>
    rw [eq] at left_
    exact .inr ⟨if_pos early, left_⟩
  | rearmed events timeout heard exit _ modified =>
    rw [if_neg (Bool.eq_false_iff.mp heard), exit]
    have held' := decided_held w held
    have given := add_timer_deadlines_own (s := (decided w s).setEvents events) held' settled timeout
    have now : ((decided w s).setEvents events).wire.now = s.wire.now := (decided_frame w s).now
    unfold Conn.deadlines at left_ given
    rw [modified.timers.timerManager_, modified.effect.this, ← add_timer_this _ timeout, given,
      now] at left_
    exact .inl ⟨timeout, rfl, List.mem_singleton.mp left_⟩
  | stranded heard exit eq =>
    rw [eq] at left_
    cases settled ▸ left_
  | closed heard exit closed =>
    unfold Conn.deadlines at left_ settled
    rw [closed.timers.timerManager_, closed.effect.this, settled] at left_
    cases left_

end Handlers

namespace Reactor

variable {r r' : Reactor} {c : ConnId} {cl : Client}

/-- The timeout a step sets: of which connection, when, and for how long. -/
def timeouts (w : ConnId → World) (r : Reactor) : Label → List (ConnId × Timeval × Nat)
  | .runFunctor ℓ a =>
    (r.subject (.runFunctor ℓ a)).toList.map fun c => (c, a.now, DEFAULT_EXPIRED_TIME)
  | .handle ℓ a =>
    (r.handling (.handle ℓ a)).toList.flatMap fun called =>
      (called.2.renewed (w called.1)).toList.map fun timeout => (called.1, a.now, timeout)
  | _ => []

/-- The timeout of the connection that a run has set last. -/
def lastTimeout (w : ConnId → World) (ls : List Label) (c : ConnId) : Option (Timeval × Nat) :=
  (((machine w).output (timeouts w) new ls).filter (·.1 = c)).getLast?.map (·.2)

/-- Only the subject of a step is given a timeout. -/
theorem timeouts_idle {w : ConnId → World} {l : Label}
    (idle : r.subject l ≠ some c) : (timeouts w r l).filter (·.1 = c) = [] := by
  refine List.filter_eq_nil_iff.mpr fun entry member same => idle ?_
  rw [← of_decide_eq_true same]
  cases l with
  | runFunctor ℓ a =>
    obtain ⟨d, own, rfl⟩ := List.mem_map.mp member
    exact Option.mem_toList.mp own
  | handle ℓ a =>
    obtain ⟨called, handled, given⟩ := List.mem_flatMap.mp member
    obtain ⟨timeout, _, rfl⟩ := List.mem_map.mp given
    exact handling_handle (Option.mem_toList.mp handled)
  | _ => cases member

/-- A run that goes on by a step that sets no timeout of the connection. -/
theorem lastTimeout_idle {w : ConnId → World} {ls : List Label} {l : Label}
    (run : (machine w).exec new ls = some r) (taken : step w r l = some r')
    (none_set : (timeouts w r l).filter (·.1 = c) = []) :
    lastTimeout w (ls ++ [l]) c = lastTimeout w ls c := by
  unfold lastTimeout
  rw [Machine.output_append _ run, Machine.output_cons _ taken, List.filter_append,
    List.filter_append, none_set]
  simp [Machine.output]

theorem lastTimeout_set {w : ConnId → World} {ls : List Label} {l : Label} {t : Timeval}
    {timeout : Nat} (run : (machine w).exec new ls = some r) (taken : step w r l = some r')
    (set_ : timeouts w r l = [(c, t, timeout)]) :
    lastTimeout w (ls ++ [l]) c = some (t, timeout) := by
  unfold lastTimeout
  rw [Machine.output_append _ run, Machine.output_cons _ taken, set_]
  simp [Machine.output]

/-- The deadline of a connection is that of the timeout that was set last. -/
def OnTime (w : ConnId → World) (ls : List Label) (r : Reactor) : Prop :=
  ∀ c cl, r.conns c = some cl → ∀ deadline ∈ (r.view cl).deadlines, ∃ t timeout,
    lastTimeout w ls c = some (t, timeout) ∧ timeout ≤ DEFAULT_KEEP_ALIVE_TIME ∧
      deadline = t.msec + timeout

/-- What a handler and `release` behind it leave of the connection's node. -/
theorem stored_deadlines {s : Conn} (sound : (r.store c s).Sound)
    (alive : ((r.store c s).release c).conns c = some cl) :
    (((r.store c s).release c).view cl).deadlines = s.deadlines := by
  obtain ⟨stored, counterpart⟩ := release_undisturbed sound c cl alive
  cases (update_self c _ _).symm.trans stored
  rw [counterpart.deadlines, store_view]

theorem onTime_step {w : ConnId → World} {ls : List Label} {l : Label} (onTime : OnTime w ls r)
    (sound : r.Sound) (timed : r.Timed) (owned : r.Owned) (run : (machine w).exec new ls = some r)
    (taken : step w r l = some r') : OnTime w (ls ++ [l]) r' := by
  intro c cl' alive' deadline left_
  cases alive : r.conns c with
  | none =>
    -- A connection that has just been accepted has no timeout yet.
    have born := (born_mirrors sound owned taken alive alive').2.counterpart.deadlines
    rw [← born] at left_
    cases left_
  | some cl =>
    by_cases own : r.subject l = some c
    · obtain ⟨this, holder, _⟩ := sound.named c cl alive
      have held : cl.http.channel_.holder_ = some cl.http.this :=
        holder.trans (congrArg some this.symm)
      cases step_steps taken with
      | handle ℓ a d ret r₁ point called =>
        obtain rfl : d = c := by simpa [subject, point, LoopPoint.ret] using own
        have stored := sound.handle point called
        obtain ⟨cl, alive₁, rfl, _, handled, _, _, rfl⟩ := sound.handle_inv point called
        cases alive.symm.trans alive₁
        rw [stored_deadlines stored alive'] at left_
        rcases handleEvents_deadline (timed.conn sound alive a) held left_ with
          ⟨timeout, renewed, rfl⟩ | ⟨silent, old⟩
        · refine ⟨a.now, timeout, lastTimeout_set run taken ?_, renewed_le renewed, rfl⟩
          simp [timeouts, handled, renewed]
        · rw [lastTimeout_idle run taken (by simp [timeouts, handled, silent])]
          exact onTime d cl alive deadline old
      | runFunctor ℓ a done d rest _ point called =>
        obtain rfl : d = c := by simpa [subject, point, LoopPoint.waiting] using own
        obtain ⟨cl, alive₁, rfl, waits, _, _, rfl⟩ := sound.functor_inv point called
        cases alive.symm.trans alive₁
        have unlinked : (cl.conn a (r.loops cl.http.loop_).epoll).deadlines = [] := by
          refine TimerManager.Detached.deadlines fun node queued refers => ?_
          have links := ((timed.linked _).refers node queued _ refers).2.1
          rw [show (cl.conn a _).http.this = d from this, timed.fresh _ d waits] at links
          cases links
        cases (update_self d _ _).symm.trans alive'
        rw [store_view, newEvent_deadline held unlinked] at left_
        refine ⟨a.now, DEFAULT_EXPIRED_TIME, lastTimeout_set run taken ?_, by decide,
          List.mem_singleton.mp left_⟩
        simp [timeouts, own]
      | drop ℓ a node _ found refers => simp [subject, found, refers] at own
      | close ℓ a node d r₁ point found refers called =>
        obtain rfl : d = c := by simpa [subject, found, refers] using own
        have stored := sound.close point found refers called
        obtain ⟨cl, alive₁, rfl, _, rfl⟩ := sound.close_inv point found refers called
        cases alive.symm.trans alive₁
        have closed := handleClose_closed
          (cl.conn a ((r.pop cl.http.loop_ node.id).loops cl.http.loop_).epoll)
        have none_left := pop_deadlines timed found refers
        rw [stored_deadlines stored alive'] at left_
        unfold Conn.deadlines at left_
        rw [closed.timers.timerManager_, closed.effect.this] at left_
        cases (this ▸ none_left) ▸ left_
      | _ => cases own
    · obtain ⟨_, _, deadlines⟩ := idle_slots sound timed taken own alive alive'
      rw [deadlines] at left_
      rw [lastTimeout_idle run taken (timeouts_idle own)]
      exact onTime c cl alive deadline left_

theorem exec_onTime {w : ConnId → World} {ls : List Label}
    (run : (machine w).exec new ls = some r) : OnTime w ls r := by
  induction ls using List.reverseRecOn generalizing r with
  | nil =>
    cases run
    intro c cl alive
    cases alive
  | append_singleton ls l ih =>
    obtain ⟨r₁, front, taken⟩ := Machine.exec_concat run
    obtain ⟨sound, timed, owned⟩ : r₁.Sound ∧ r₁.Timed ∧ r₁.Owned :=
      Machine.invariant_exec (M := machine w) (I := fun r => r.Sound ∧ r.Timed ∧ r.Owned)
        (fun r l r' inv taken => ⟨inv.1.step r l r' taken, inv.2.1.step inv.1 taken,
          inv.2.2.step inv.1 taken⟩) ⟨sound_new, timed_new, owned_new⟩ front
    exact onTime_step (ih front) sound timed owned front taken

theorem exec_watched {w : ConnId → World} {ls : List Label}
    (run : (machine w).exec new ls = some r)
    (kept : (machine w).Along (fun r l _ => ¬Strands w r l) new ls) :
    r.Sound ∧ r.Timed ∧ r.Watched ∧ r.Referenced :=
  Machine.invariant_exec_under (M := machine w)
    (I := fun r => r.Sound ∧ r.Timed ∧ r.Watched ∧ r.Referenced)
    (fun r l r' inv kept taken => ⟨inv.1.step r l r' taken, inv.2.1.step inv.1 taken,
      inv.2.2.1.step inv.1 inv.2.1 taken kept, inv.2.2.2.step inv.1 inv.2.1 taken⟩)
    ⟨sound_new, timed_new, watched_new, referenced_new⟩ kept run

/-- A node of the connection, by its deadline. -/
theorem deadline_of_node (sound : r.Sound) (alive : r.conns c = some cl) {node : TimerNode}
    (queued : node ∈ (r.loops cl.http.loop_).epoll.timerManager_.timerNodeQueue)
    (refers : node.SPHttpData = some c) : node.expiredTime_ ∈ (r.view cl).deadlines := by
  have this := (sound.named c cl alive).1
  refine List.mem_map.mpr ⟨node, List.mem_filter.mpr ⟨queued, ?_⟩, rfl⟩
  simp [view, this, refers]

/-- At the end of a sweep no node of the loop is due. -/
theorem endExpire_due {w : ConnId → World} {ℓ : LoopId} {now : Timeval}
    (taken : step w r (.endExpire ℓ now) = some r') : r' = r.setPoint ℓ .polling ∧
      ∀ node ∈ (r.loops ℓ).epoll.timerManager_.timerNodeQueue, now.msec < node.expiredTime_ := by
  simp only [step] at taken
  split at taken
  next ends =>
    cases taken
    refine ⟨rfl, fun node queued => ?_⟩
    rcases ends.2 with empty | ⟨top, _, least, _, early⟩
    · rw [empty] at queued
      cases queued
    · exact Nat.lt_of_lt_of_le early (least.2 node queued)
  next => cases taken

/-- A node that is popped and refers to a connection is due. -/
theorem expire_due {w : ConnId → World} (timed : r.Timed) {ℓ : LoopId} {id : TimerId} {a : Arrival}
    (taken : step w r (.expire ℓ id a) = some r') (own : r.subject (.expire ℓ id a) = some c) :
    ∃ node ∈ (r.loops ℓ).epoll.timerManager_.timerNodeQueue,
      node.SPHttpData = some c ∧ node.expiredTime_ ≤ a.now.msec := by
  obtain ⟨node, found, refers⟩ := Option.bind_eq_some_iff.mp own
  have queued := List.mem_of_find?_eq_some found
  refine ⟨node, queued, refers, ?_⟩
  simp only [step, found] at taken
  split at taken
  next =>
    split at taken
    next due =>
      rw [((timed.linked ℓ).refers node queued c refers).1] at due
      exact due.2.resolve_left Bool.false_ne_true
    next => cases taken
  next => cases taken

/-- In a run that strands no connection `handleExpired` closes a connection only when it was silent
for the timeout that was set last; and when it is done, every connection of the loop that is still
there waits to enter it, is held by `handNewConn`, or has some of that timeout left. -/
theorem silent_connections_end {w : ConnId → World} {ls : List Label}
    (run : (machine w).exec new ls = some r)
    (kept : (machine w).Along (fun r l _ => ¬Strands w r l) new ls) (ℓ : LoopId) :
    (∀ id a r' c, step w r (.expire ℓ id a) = some r' → r.subject (.expire ℓ id a) = some c →
      ∃ t timeout, lastTimeout w ls c = some (t, timeout) ∧ t.msec + timeout ≤ a.now.msec) ∧
    ∀ now r' c cl, step w r (.endExpire ℓ now) = some r' → r'.conns c = some cl →
      cl.http.loop_ = ℓ → c ∈ (r'.loops ℓ).pendingFunctors_ ∨ r'.req_info = some c ∨
        ∃ t timeout, lastTimeout w ls c = some (t, timeout) ∧
          timeout ≤ DEFAULT_KEEP_ALIVE_TIME ∧ now.msec < t.msec + timeout := by
  obtain ⟨sound, timed, watched, referenced⟩ := exec_watched run kept
  have onTime := exec_onTime run
  constructor
  · intro id a r' c taken own
    obtain ⟨node, queued, refers, due⟩ := expire_due timed taken own
    obtain ⟨cl, alive, rfl⟩ := sound.timers ℓ node queued c refers
    obtain ⟨t, timeout, last, _, eq⟩ :=
      onTime c cl alive _ (deadline_of_node sound alive queued refers)
    exact ⟨t, timeout, last, eq ▸ due⟩
  · rintro now r' c cl taken alive rfl
    obtain ⟨rfl, early⟩ := endExpire_due taken
    have alive : r.conns c = some cl := alive
    have referenced' := referenced.step sound timed taken c cl alive
    have watches : (r.loops cl.http.loop_).epoll.timerManager_.Watches c →
        ∃ t timeout, lastTimeout w ls c = some (t, timeout) ∧
          timeout ≤ DEFAULT_KEEP_ALIVE_TIME ∧ now.msec < t.msec + timeout := by
      rintro ⟨node, queued, _, refers⟩
      obtain ⟨t, timeout, last, bounded, eq⟩ :=
        onTime c cl alive _ (deadline_of_node sound alive queued refers)
      exact ⟨t, timeout, last, bounded, eq ▸ early node queued⟩
    unfold Reactor.held at referenced'
    dsimp only at referenced'
    rw [setPoint_epoll, setPoint_point] at referenced'
    -- The connection is held by one of the five kinds of references.
    rcases referenced' with listed | ⟨node, queued, refers⟩ | waits | bound | local_
    · exact .inr (.inr (watches (watched _ _ _ listed)))
    · have alive' := ((timed.linked _).refers node queued c refers).1
      exact .inr (.inr (watches ⟨node, queued, alive', refers⟩))
    · exact .inl waits
    · cases bound
    · exact .inr (.inl local_)

/-- Of two connections one is answered in the first second, and the other one times out. -/
def oneIsSilent : List Label := [.accept 5 1 true, .accepted, .accept 6 1 true, .accepted,
  .poll 1 [] true, .startFunctors 1, .runFunctor 1 (quietAt 0), .runFunctor 1 (quietAt 0),
  .endFunctors 1, .endExpire 1 ⟨0, 0⟩, .poll 1 [(5, ⟨true, false, false, false⟩)] false,
  .handle 1 { bringing (bytes "GET /hello HTTP/1.1\r\nConnection: keep-alive\r\n\r\n") with
    now := ⟨1, 0⟩ },
  .startFunctors 1, .endFunctors 1, .expire 1 0 (quietAt 3), .expire 1 1 (quietAt 3)]

theorem silent_connections_end_oneIsSilent : ∃ r,
    (machine fun _ => World.bare).exec new oneIsSilent = some r ∧
      r.conns 1 = none ∧ lastTimeout (fun _ => World.bare) oneIsSilent 0 = some (⟨1, 0⟩, 300000) ∧
      ∀ now r' c cl, step (fun _ => World.bare) r (.endExpire 1 now) = some r' →
        r'.conns c = some cl → cl.http.loop_ = 1 →
          c ∈ (r'.loops 1).pendingFunctors_ ∨ r'.req_info = some c ∨
            ∃ t timeout, lastTimeout (fun _ => World.bare) oneIsSilent c = some (t, timeout) ∧
              timeout ≤ DEFAULT_KEEP_ALIVE_TIME ∧ now.msec < t.msec + timeout := by
  obtain ⟨r, run, gone⟩ := Machine.exec_any (M := machine fun _ => World.bare)
    (fun r => r.conns 1 = none) new oneIsSilent (by decide +kernel)
  have kept : (machine fun _ => World.bare).Along
      (fun r l _ => ¬Strands (fun _ => World.bare) r l) new oneIsSilent := by
    decide +kernel
  exact ⟨r, run, gone, by decide +kernel, (silent_connections_end run kept 1).2⟩

end Reactor

end LightAgent

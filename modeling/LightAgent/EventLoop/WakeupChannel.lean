import LightAgent.EventLoop
import LightAgent.Library.Simulation
import LightAgent.Server

/-!
# The wakeup channel

The loop watches `wakeupFd_` by a channel of its own. That channel is handed out, read and given
back to the poller like any other, so what `EventLoop` takes for granted of its eventfd has to come
from the handlers: each write is reported once, as long as the loop runs.
-/
namespace LightAgent

open Library EventLoop

/-- `pwakeupChannel_` and `wakeupFd_`, with what the kernel and the poller have of them. -/
structure WakeupChannel where
  counter : Nat
  /-- the descriptor is in the kernel's list of those that `epoll_wait` looks at -/
  listed : Bool
  interest : Option Registration
  /-- the table has the channel -/
  fd2chan_ : Bool
  channel : Channel
  /-- the calls of `epoll_ctl` -/
  calls : Nat
  deriving DecidableEq

namespace WakeupChannel

/-- What the loop and the threads that wake it do to the channel. -/
inductive Label where
  /-- the `write` of `wakeup` -/
  | write
  /-- `epoll_wait` reports the descriptor, and the channel is handed out -/
  | report
  /-- `handleEvents` of the channel -/
  | handle
  deriving DecidableEq, Repr

/-- What can be done with the eventfd, out of what is asked for. -/
def ready (c : WakeupChannel) (mask : Events) : Ready where
  readable := mask.has EPOLLIN && 0 < c.counter
  writable := mask.has EPOLLOUT && c.counter < Eventfd.limit
  failed := false
  hungUp := false

/-- What happens to the descriptor puts it on the list if it is asked for. -/
def notify (c : WakeupChannel) (event : Events) : WakeupChannel :=
  { c with listed := c.listed || c.interest.any fun reg => reg.enabled && reg.mask.has event }

/-- `write` of 1 -/
def write (c : WakeupChannel) : WakeupChannel :=
  if c.counter < Eventfd.limit then { c with counter := c.counter + 1 }.notify EPOLLIN else c

def setEvents (c : WakeupChannel) (events : Events) : WakeupChannel :=
  { c with channel := { c.channel with events_ := events } }

/-- `EventLoop::handleRead` -/
def handleRead (c : WakeupChannel) : WakeupChannel :=
  -- `readn` reads the counter, and nothing where it is 0.
  let c := if 0 < c.counter then { c with counter := 0 }.notify EPOLLOUT else c
  c.setEvents (EPOLLIN ||| EPOLLET)

/-- `EventLoop::handleConn`: `epoll_mod` without a timeout. -/
def handleConn (epollCtl : Nat → Bool) (c : WakeupChannel) : WakeupChannel :=
  let events := c.channel.events_
  let same := c.channel.lastEvents_ = events
  let c := { c with channel := { c.channel with lastEvents_ := events } }
  if same then c
  else if epollCtl c.calls then { c with
    interest := some ⟨events, true⟩
    -- `epoll_ctl` looks at the descriptor as it finds it.
    listed := c.listed || (c.ready events).readable || (c.ready events).writable
    calls := c.calls + 1 }
  else { c with fd2chan_ := false, calls := c.calls + 1 }

/-- `Channel::handleEvents`; the channel has no write handler. -/
def handleEvents (epollCtl : Nat → Bool) (c : WakeupChannel) : WakeupChannel :=
  let c := c.setEvents 0
  let revents_ := c.channel.revents_
  if returnsEarly revents_ then c
  else
    let c := if revents_.has (EPOLLIN ||| EPOLLPRI ||| EPOLLRDHUP) then c.handleRead else c
    c.handleConn epollCtl

/-- `epoll_wait` and `getEventsRequest`: a descriptor on the list is reported, and stays there
unless the registration is edge-triggered. -/
def report (c : WakeupChannel) : Option WakeupChannel := do
  let reg ← c.interest
  let ready := c.ready reg.mask
  if c.listed ∧ reg.enabled ∧ (ready.readable ∨ ready.writable) ∧ c.fd2chan_ then
    some { c with
      listed := !reg.mask.has EPOLLET
      interest := some (Reactor.Registration.fire reg)
      channel := { c.channel with revents_ := ready.events, events_ := 0 } }
  else none

/-- The constructor of `EventLoop`: `setEvents`, and `epoll_add` without a timeout. -/
def start (epollCtl : Nat → Bool) : WakeupChannel where
  counter := 0
  listed := false
  interest := if epollCtl 0 then some ⟨EPOLLIN ||| EPOLLET, true⟩ else none
  fd2chan_ := epollCtl 0
  channel :=
    { events_ := EPOLLIN ||| EPOLLET, revents_ := 0, lastEvents_ := EPOLLIN ||| EPOLLET,
      holder_ := none }
  calls := 1

def step (epollCtl : Nat → Bool) (c : WakeupChannel) : Label → Option WakeupChannel
  | .write => some c.write
  | .report => c.report
  | .handle => some (c.handleEvents epollCtl)

/-- The channel of a loop; `epollCtl` tells which calls of `epoll_ctl` succeed. -/
def machine (epollCtl : Nat → Bool) : Machine WakeupChannel Label :=
  ⟨(· = start epollCtl), step epollCtl⟩

/-! ### The registration -/

/-- It is registered as the constructor has registered it, and `epoll_ctl` has not been called
again. -/
structure Armed (c : WakeupChannel) : Prop where
  interest : c.interest = some ⟨EPOLLIN ||| EPOLLET, true⟩
  fd2chan_ : c.fd2chan_ = true
  lastEvents_ : c.channel.lastEvents_ = EPOLLIN ||| EPOLLET
  calls : c.calls = 1

/-- The channel is to the eventfd of `EventLoop` what the kernel and the poller make of it. -/
structure Shows (c : WakeupChannel) (efd : Eventfd) : Prop where
  armed : c.Armed
  counter : c.counter = efd.counter
  listed : c.listed = efd.edge

variable {c : WakeupChannel} {efd : Eventfd} {epollCtl : Nat → Bool}

theorem asks_readable : (EPOLLIN ||| EPOLLET).has EPOLLIN = true := by decide

theorem asks_writable : (EPOLLIN ||| EPOLLET).has EPOLLOUT = false := by decide

/-- Only what is to be read is looked at. -/
theorem ready_readable (c : WakeupChannel) :
    c.ready (EPOLLIN ||| EPOLLET) = ⟨0 < c.counter, false, false, false⟩ := by
  simp [ready, asks_readable, asks_writable]

theorem start_shows (added : epollCtl 0 = true) : (start epollCtl).Shows ⟨0, false⟩ := by
  refine ⟨⟨?_, added, rfl, rfl⟩, rfl, rfl⟩
  simp [start, added]

namespace Armed

/-- A write puts the descriptor on the list. -/
theorem notify_readable (armed : c.Armed) : (c.notify EPOLLIN).listed = true := by
  simp [notify, armed.interest, asks_readable]

/-- A read makes the descriptor writable, which is not asked for. -/
theorem notify_writable (armed : c.Armed) : c.notify EPOLLOUT = c := by
  have silent : (c.interest.any fun reg => reg.enabled && reg.mask.has EPOLLOUT) = false := by
    simp [armed.interest, asks_writable]
  unfold notify
  rw [silent, Bool.or_false]

/-- What a report makes of the channel. -/
theorem report (armed : c.Armed) : c.report =
    if c.listed ∧ 0 < c.counter then some { c with
      listed := false
      channel := { c.channel with revents_ := EPOLLIN, events_ := 0 } }
    else none := by
  unfold WakeupChannel.report
  rw [armed.interest]
  by_cases pending : c.listed ∧ 0 < c.counter
  · have readable : (Ready.mk true false false false).events = EPOLLIN := by decide
    have fires : Reactor.Registration.fire ⟨EPOLLIN ||| EPOLLET, true⟩ =
        ⟨EPOLLIN ||| EPOLLET, true⟩ := by
      decide
    have edge : (!(EPOLLIN ||| EPOLLET).has EPOLLET) = false := by decide
    simp [ready_readable, armed.fd2chan_, pending, readable, fires, edge]
  · simp [ready_readable, armed.fd2chan_, pending]

/-- Where the handlers have asked for the same again, the poller is not called. -/
theorem handleConn (armed : c.Armed) (events : c.channel.events_ = EPOLLIN ||| EPOLLET) :
    c.handleConn epollCtl = c := by
  have same : c.channel.lastEvents_ = c.channel.events_ := armed.lastEvents_.trans events.symm
  obtain ⟨counter, listed, interest, chan, ⟨events_, revents_, lastEvents_, holder_⟩, calls⟩ := c
  dsimp only at same
  subst same
  exact if_pos rfl

end Armed

theorem write_channel (c : WakeupChannel) : c.write.channel = c.channel := by
  unfold WakeupChannel.write
  split
  · rfl
  · rfl

namespace Shows

/-- Each write is an edge. -/
theorem write (shows_ : c.Shows efd) : c.write.Shows efd.write := by
  obtain ⟨armed, counter, listed⟩ := shows_
  have counted : Armed { c with counter := c.counter + 1 } :=
    ⟨armed.interest, armed.fd2chan_, armed.lastEvents_, armed.calls⟩
  unfold WakeupChannel.write Eventfd.write
  rw [counter]
  split
  · refine ⟨?_, rfl, (counter ▸ counted).notify_readable⟩
    exact ⟨armed.interest, armed.fd2chan_, armed.lastEvents_, armed.calls⟩
  · exact ⟨armed, counter, listed⟩

/-- It is reported where the edge is pending. -/
theorem report_iff (shows_ : c.Shows efd) : c.report.isSome ↔ efd.Pending := by
  rw [shows_.armed.report, shows_.counter, shows_.listed]
  unfold Eventfd.Pending
  split
  next pending => simp [pending]
  next idle => simp [idle]

/-- A report uses the edge up. -/
theorem report (shows_ : c.Shows efd) (pending : efd.Pending) : ∃ c', c.report = some c' ∧
    c'.Shows { efd with edge := false } ∧ c'.channel.revents_ = EPOLLIN := by
  obtain ⟨armed, counter, listed⟩ := shows_
  refine ⟨_, armed.report.trans (if_pos ?_), ⟨?_, counter, rfl⟩, rfl⟩
  · exact ⟨listed.trans pending.1, counter ▸ pending.2⟩
  · exact ⟨armed.interest, armed.fd2chan_, armed.lastEvents_, armed.calls⟩

/-- The handlers read it, and leave the poller as it is. -/
theorem handleEvents (shows_ : c.Shows efd) (epollCtl : Nat → Bool)
    (reported : c.channel.revents_ = EPOLLIN) :
    (c.handleEvents epollCtl).Shows efd.read ∧
      (c.handleEvents epollCtl).channel.revents_ = EPOLLIN := by
  obtain ⟨armed, counter, listed⟩ := shows_
  have heard : returnsEarly EPOLLIN = false := by decide
  have readable : EPOLLIN.has (EPOLLIN ||| EPOLLPRI ||| EPOLLRDHUP) = true := by decide
  have drained : (c.setEvents 0).handleRead =
      { c with counter := 0, channel := { c.channel with events_ := EPOLLIN ||| EPOLLET } } := by
    unfold WakeupChannel.handleRead
    dsimp only
    split
    · have read : Armed { c.setEvents 0 with counter := 0 } :=
        ⟨armed.interest, armed.fd2chan_, armed.lastEvents_, armed.calls⟩
      rw [read.notify_writable]
      rfl
    next empty =>
      have none : c.counter = 0 := Nat.eq_zero_of_not_pos empty
      rw [← none]
      rfl
  have asked : Armed
      { c with counter := 0, channel := { c.channel with events_ := EPOLLIN ||| EPOLLET } } :=
    ⟨armed.interest, armed.fd2chan_, armed.lastEvents_, armed.calls⟩
  have left : c.handleEvents epollCtl =
      { c with counter := 0, channel := { c.channel with events_ := EPOLLIN ||| EPOLLET } } := by
    unfold WakeupChannel.handleEvents
    dsimp only
    rw [show (c.setEvents 0).channel.revents_ = EPOLLIN from reported, heard, readable, drained]
    exact asked.handleConn rfl
  rw [left]
  exact ⟨⟨asked, rfl, listed⟩, reported⟩

end Shows
end WakeupChannel

namespace EventLoop

variable {T F : Type*} [DecidableEq T] {s s' : EventLoop T F} {c : WakeupChannel}
  {epollCtl : Nat → Bool}

/-! ### The channel of a loop -/

/-- What a step does to the channel. -/
def touches (s : EventLoop T F) : Label T F → List WakeupChannel.Label
  | .wakeup t =>
    if t ≠ none ∨ (s.call t = .pushed ∧ s.callingPendingFunctors_ = true) then [.write] else []
  | .poll active => if .wakeup ∈ active then [.report] else []
  | .handled => if s.point.ret.head? = some .wakeup then [.handle] else []
  | _ => []

/-- The channel stands where the loop does. -/
structure Watches (s : EventLoop T F) (c : WakeupChannel) : Prop where
  shows_ : c.Shows s.wakeupFd_
  revents_ : .wakeup ∈ s.point.ret → c.channel.revents_ = EPOLLIN

theorem poll_pending {active : List Active} (taken : s.step (.poll active) = some s')
    (woken : Active.wakeup ∈ active) : s.wakeupFd_.Pending := by
  simp only [step] at taken
  split at taken
  next =>
    split at taken
    next reported => exact reported.2 woken
    next => cases taken
  next => cases taken

/-- A step of the loop is what it does to the channel. -/
theorem Watches.step {l : Label T F} (watches : Watches s c) (taken : s.step l = some s') :
    ∃ c', (WakeupChannel.machine epollCtl).Puts (fun _ k => [k]) c (s.touches l) c' ∧
      Watches s' c' := by
  obtain ⟨shows_, revents⟩ := watches
  -- Where the channel is not touched, and none is left to be handled but what was.
  have quiet (silent : s.touches l = []) (same : s'.wakeupFd_ = s.wakeupFd_)
      (ret : .wakeup ∈ s'.point.ret → .wakeup ∈ s.point.ret) :
      ∃ c', (WakeupChannel.machine epollCtl).Puts (fun _ k => [k]) c (s.touches l) c' ∧
        Watches s' c' := by
    rw [silent]
    exact ⟨c, .refl c, same ▸ shows_, fun listed => revents (ret listed)⟩
  cases step_steps taken with
  | @wakeup t busy =>
    by_cases wakes : t ≠ none ∨ (s.call t = .pushed ∧ s.callingPendingFunctors_ = true)
    · have touched : s.touches (.wakeup t) = [.write] := if_pos wakes
      have written : (s.wakeup t).wakeupFd_ = s.wakeupFd_.write := if_pos wakes
      rw [touched]
      exact ⟨c.write, .step rfl, written ▸ shows_.write,
        fun listed => (WakeupChannel.write_channel c).symm ▸ revents listed⟩
    · exact quiet (if_neg wakes) (if_neg wakes) id
  | @poll active point some_ =>
    by_cases woken : Active.wakeup ∈ active
    · obtain ⟨c', reported, shows', revents'⟩ := shows_.report (poll_pending taken woken)
      have touched : s.touches (.poll active) = [.report] := if_pos woken
      rw [touched]
      refine ⟨c', .step reported, ?_, fun _ => revents'⟩
      simpa [woken] using shows'
    · refine quiet (if_neg woken) ?_ fun listed => absurd listed woken
      simp [woken]
  | @handleRead ret point =>
    have first : .wakeup ∈ s.point.ret := by
      rw [point]
      exact List.mem_cons_self
    have touched : s.touches .handled = [.handle] := by simp [touches, point, Point.ret]
    obtain ⟨shows', revents'⟩ := shows_.handleEvents epollCtl (revents first)
    rw [touched]
    exact ⟨_, .step rfl, shows', fun _ => revents'⟩
  | @handled ret point idle =>
    refine quiet (by simp [touches, point, Point.ret]) rfl fun listed => ?_
    rw [point]
    exact List.mem_cons_of_mem _ listed
  | check point =>
    refine quiet rfl rfl fun listed => ?_
    dsimp only at listed
    split at listed
    · cases listed
    · cases listed
  | queueInLoop cb idle caller => exact quiet rfl rfl id
  | quit free => exact quiet rfl rfl id
  | idle point => exact quiet rfl rfl id
  | _ => exact quiet rfl rfl nofun

theorem watches_refines (added : epollCtl 0 = true) :
    Machine.Refines (machine T F) (WakeupChannel.machine epollCtl) Watches touches
      (fun _ k => [k]) where
  init s start := by
    cases start
    exact ⟨_, _, rfl, .refl _, WakeupChannel.start_shows added, nofun⟩
  step _ _ _ _ watches taken := watches.step taken

/-- In every run of the loop and of the threads that wake it, the channel does what `EventLoop`
takes for granted of its eventfd: it stays registered, `epoll_ctl` is not called again, it is
reported where the eventfd is pending, and so where the loop waits while a functor is queued,
unless a thread has still to wake it. -/
theorem wakeups_heard (added : epollCtl 0 = true) {ls : List (Label T F)}
    (run : (machine T F).exec new ls = some s) :
    ∃ c, (WakeupChannel.machine epollCtl).exec (.start epollCtl)
        ((machine T F).output touches new ls) = some c ∧
      c.Armed ∧ (c.report.isSome ↔ s.wakeupFd_.Pending) ∧
      (s.point = .polling → s.pendingFunctors_ ≠ [] →
        c.report.isSome ∨ ∃ t, s.call (some t) = .pushed) := by
  obtain ⟨_, c, start, puts, watches⟩ := (watches_refines added).run rfl run
  cases start
  have sound : s.Sound := Machine.invariant_exec (fun _ _ _ => Sound.step) sound_new run
  have reports := watches.shows_.report_iff
  refine ⟨c, puts.exec, watches.shows_.armed, reports, fun point queued => ?_⟩
  rcases sound.heard (by rw [point]; rfl) with empty | pending | ⟨t, pushed⟩
  · exact absurd empty queued
  · exact .inl (reports.mpr pending)
  · cases t with
    | none => cases (sound.idle point rfl).symm.trans pushed
    | some t => exact .inr ⟨t, pushed⟩

/-- No call of `epoll_ctl` but the first succeeds. -/
def onlyFirst (call : Nat) : Bool := call = 0

theorem wakeups_heard_threePushes : ∃ s c, (machine Nat Nat).exec new threePushes = some s ∧
    (WakeupChannel.machine onlyFirst).exec (.start onlyFirst)
      [.write, .report, .handle, .write, .report, .handle] = some c ∧
    c.Armed ∧ (c.report.isSome ↔ s.wakeupFd_.Pending) := by
  obtain ⟨s, run, _⟩ := Machine.exec_any (M := machine Nat Nat) (fun _ => True) new threePushes
    (by decide)
  have added : onlyFirst 0 = true := rfl
  have touched : (machine Nat Nat).output touches new threePushes =
      [.write, .report, .handle, .write, .report, .handle] := by
    decide
  obtain ⟨c, channel, armed, reports, _⟩ := wakeups_heard added run
  rw [touched] at channel
  exact ⟨s, c, run, channel, armed, reports⟩

end EventLoop
end LightAgent

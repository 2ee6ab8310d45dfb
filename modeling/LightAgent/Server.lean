import LightAgent.Reactor

/-!
# Server: the listening channel

`handNewConn` runs in the main loop against the descriptors that `accept` returns one after
another, and `handThisConn` tells the poller of whatever events it has left in the channel.
-/
namespace LightAgent

open Library

/-- `EventLoopThreadPool` once it is started; its constructor aborts without threads. -/
structure EventLoopThreadPool where
  loops_ : List LoopId
  numThreads_ : Nat
  next_ : Nat
  started : loops_.length = numThreads_
  inRange : next_ < numThreads_

/-- `EventLoopThreadPool::getNextLoop` -/
def EventLoopThreadPool.getNextLoop (pool : EventLoopThreadPool) : LoopId × EventLoopThreadPool :=
  (pool.loops_.get ⟨pool.next_, pool.started ▸ pool.inRange⟩,
    { pool with
      next_ := (pool.next_ + 1) % pool.numThreads_
      inRange := Nat.mod_lt _ (Nat.zero_lt_of_lt pool.inRange) })

theorem EventLoopThreadPool.getNextLoop_mem (pool : EventLoopThreadPool) :
    pool.getNextLoop.1 ∈ pool.loops_ := List.get_mem _ _

/-- A descriptor that `accept` returns, and whether `setSocketNonBlocking` succeeds on it. -/
structure AcceptOutcome where
  fd : Fd
  nonBlocking : Bool
  deriving DecidableEq, Repr

/-- What one call of `handNewConn` does with descriptors: those that `accept` returned, those it
closed, and those whose `newEvent` it queued in a loop. -/
structure Taken where
  accepted : List Fd
  closed : List Fd
  queued : List (LoopId × Fd)
  deriving DecidableEq, Repr

/-- `Server`, with what the poller of the main loop holds for `listenFd_`: whether its entry in
`fd2chan_` is the listening channel, and the registration. -/
structure Server where
  acceptChannel_ : Channel
  eventLoopThreadPool_ : EventLoopThreadPool
  fd2chan_ : Bool
  interest : Option Registration

namespace Server

def setEvents (s : Server) (events : Events) : Server :=
  { s with acceptChannel_ := { s.acceptChannel_ with events_ := events } }

/-- `Server::start`, with the result of `epoll_ctl` in `addToPoller`. -/
def start (pool : EventLoopThreadPool) (epollCtl : Bool) : Server where
  acceptChannel_ :=
    { events_ := EPOLLIN ||| EPOLLET, revents_ := 0, lastEvents_ := EPOLLIN ||| EPOLLET,
      holder_ := none }
  eventLoopThreadPool_ := pool
  fd2chan_ := epollCtl
  interest := if epollCtl then some ⟨EPOLLIN ||| EPOLLET, true⟩ else none

/-- The loop of `handNewConn`; at the end of the list `accept` fails. -/
def acceptFrom (s : Server) (taken : Taken) : List AcceptOutcome → Server × Taken
  | [] => (s.setEvents (EPOLLIN ||| EPOLLET), taken)
  | o :: os =>
    let taken := { taken with accepted := taken.accepted ++ [o.fd] }
    -- `while ((accept_fd = accept(..)) > 0)`
    if o.fd = 0 then (s.setEvents (EPOLLIN ||| EPOLLET), taken)
    else
      let (loop, pool) := s.eventLoopThreadPool_.getNextLoop
      let s := { s with eventLoopThreadPool_ := pool }
      if o.fd ≥ MAXFDS then s.acceptFrom { taken with closed := taken.closed ++ [o.fd] } os
      else if !o.nonBlocking then (s, taken)
      else s.acceptFrom { taken with queued := taken.queued ++ [(loop, o.fd)] } os

/-- `Server::handNewConn` -/
def handNewConn (s : Server) (outcomes : List AcceptOutcome) : Server × Taken :=
  s.acceptFrom ⟨[], [], []⟩ outcomes

/-- `Server::handThisConn`: `epoll_mod` without a timeout. -/
def handThisConn (s : Server) (epollCtl : Bool) : Server :=
  let events := s.acceptChannel_.events_
  let same := s.acceptChannel_.lastEvents_ = events
  let s := { s with acceptChannel_ := { s.acceptChannel_ with lastEvents_ := events } }
  if same then s
  else if epollCtl then { s with interest := some ⟨events, true⟩ }
  else { s with fd2chan_ := false }

/-- One event of the listening descriptor, and what its handlers meet. -/
structure Turn where
  ready : Ready
  outcomes : List AcceptOutcome
  epollCtl : Bool
  deriving DecidableEq

/-- `Channel::handleEvents` on the listening channel, which has no other handlers. -/
def handleEvents (s : Server) (t : Turn) : Server × Taken :=
  let s := s.setEvents 0
  let revents_ := s.acceptChannel_.revents_
  if returnsEarly revents_ then (s, ⟨[], [], []⟩)
  else
    let (s, taken) :=
      if revents_.has (EPOLLIN ||| EPOLLPRI ||| EPOLLRDHUP) then s.handNewConn t.outcomes
      else (s, ⟨[], [], []⟩)
    (s.handThisConn t.epollCtl, taken)

/-- `getEventsRequest` hands the channel out with the event. -/
def handOut (s : Server) (ready : Ready) : Server where
  acceptChannel_ := { s.acceptChannel_ with revents_ := ready.events, events_ := 0 }
  eventLoopThreadPool_ := s.eventLoopThreadPool_
  fd2chan_ := s.fd2chan_
  interest := s.interest.map Reactor.Registration.fire

/-- The kernel reports the event, and the poller has a channel for it. -/
def reported (s : Server) (ready : Ready) : Prop :=
  s.fd2chan_ = true ∧ ∃ reg ∈ s.interest, reg.enabled ∧ ready.Within reg.mask

instance (s : Server) (ready : Ready) : Decidable (s.reported ready) :=
  inferInstanceAs (Decidable (_ ∧ _))

/-- The main loop handles one event of the listening descriptor. -/
def turn (s : Server) (t : Turn) : Option (Server × Taken) :=
  if s.reported t.ready then some ((s.handOut t.ready).handleEvents t) else none

def machine : Machine Server Turn where
  init s := ∃ pool, s = .start pool true
  step s t := (s.turn t).map (·.1)

end Server

/-! ### What is asked of a turn -/

/-- The descriptor is one the loop goes on with. -/
def AcceptOutcome.Usable (o : AcceptOutcome) : Prop :=
  o.fd ≠ 0 ∧ (o.fd < MAXFDS → o.nonBlocking = true)

instance (o : AcceptOutcome) : Decidable o.Usable := inferInstanceAs (Decidable (_ ∧ _))

/-- Every descriptor that was accepted is closed or in one worker loop, and never both. -/
def Taken.Settled (pool : EventLoopThreadPool) (taken : Taken) : Prop :=
  (taken.closed ++ taken.queued.map (·.2)).Perm taken.accepted ∧
    ∀ q ∈ taken.queued, q.1 ∈ pool.loops_

instance (pool : EventLoopThreadPool) (taken : Taken) : Decidable (taken.Settled pool) :=
  inferInstanceAs (Decidable (_ ∧ _))

namespace Server

/-- The listening channel is handed out when a connection comes in. -/
def Registered (s : Server) : Prop :=
  s.fd2chan_ = true ∧ s.interest = some ⟨EPOLLIN ||| EPOLLET, true⟩

instance (s : Server) : Decidable s.Registered := inferInstanceAs (Decidable (_ ∧ _))

/-- The turn leaves every accepted descriptor settled and the listener registered. -/
def Settles (s : Server) (t : Turn) : Prop :=
  ∀ p ∈ s.turn t, p.2.Settled s.eventLoopThreadPool_ ∧ p.1.Registered

/-- The descriptors that `accept` returns in the turn can be used. -/
def Turn.Usable (t : Turn) : Prop :=
  returnsEarly t.ready.events = false → ∀ o ∈ t.outcomes, o.Usable

instance (s : Server) (t : Turn) : Decidable (s.Settles t) :=
  inferInstanceAs (Decidable (∀ p ∈ s.turn t, _))

instance (t : Turn) : Decidable t.Usable := inferInstanceAs (Decidable (_ → _))

/-- The poller has the registration that the channel remembers. -/
structure Listening (s : Server) : Prop where
  registered : s.Registered
  lastEvents_ : s.acceptChannel_.lastEvents_ = EPOLLIN ||| EPOLLET

/-! ### The loop of handNewConn -/

/-- The members `handNewConn` changes: the events of the channel and the turn of the loops. -/
theorem acceptFrom_frame (s : Server) (taken : Taken) (os : List AcceptOutcome) :
    ∃ events pool, pool.loops_ = s.eventLoopThreadPool_.loops_ ∧
      (s.acceptFrom taken os).1 = { s with
        acceptChannel_ := { s.acceptChannel_ with events_ := events }
        eventLoopThreadPool_ := pool } := by
  induction os generalizing s taken with
  | nil => exact ⟨EPOLLIN ||| EPOLLET, s.eventLoopThreadPool_, rfl, rfl⟩
  | cons o os ih =>
    rw [acceptFrom]
    dsimp only
    split
    · exact ⟨EPOLLIN ||| EPOLLET, s.eventLoopThreadPool_, rfl, rfl⟩
    -- Each of the other branches has taken a loop of the pool.
    · have rest (taken : Taken) := ih
        { s with eventLoopThreadPool_ := s.eventLoopThreadPool_.getNextLoop.2 } taken
      split
      · exact rest _
      · split
        · exact ⟨s.acceptChannel_.events_, s.eventLoopThreadPool_.getNextLoop.2, rfl, rfl⟩
        · exact rest _

/-- With usable descriptors the loop settles each of them and comes to its end. -/
theorem acceptFrom_usable {s : Server} {taken : Taken} {os : List AcceptOutcome}
    (settled : taken.Settled s.eventLoopThreadPool_) (usable : ∀ o ∈ os, o.Usable) :
    (s.acceptFrom taken os).2.Settled s.eventLoopThreadPool_ ∧
      (s.acceptFrom taken os).1.acceptChannel_.events_ = EPOLLIN ||| EPOLLET := by
  induction os generalizing s taken with
  | nil => exact ⟨settled, rfl⟩
  | cons o os ih =>
    obtain ⟨⟨positive, blocking⟩, rest⟩ := List.forall_mem_cons.mp usable
    obtain ⟨perm, workers⟩ := settled
    rw [acceptFrom]
    dsimp only
    rw [if_neg positive]
    -- A descriptor that is too large is closed, any other goes to a worker.
    by_cases large : o.fd ≥ MAXFDS
    · rw [if_pos large]
      refine ih (s := { s with eventLoopThreadPool_ := _ }) ⟨?_, workers⟩ rest
      dsimp only
      rw [List.append_assoc]
      refine (List.perm_append_comm_assoc ..).trans ?_
      exact (perm.cons o.fd).trans (List.perm_append_singleton _ _).symm
    · have nonBlocking : ¬(!o.nonBlocking) = true := by
        rw [blocking (Nat.lt_of_not_le large)]
        decide
      rw [if_neg large, if_neg nonBlocking]
      refine ih (s := { s with eventLoopThreadPool_ := _ }) ⟨?_, fun q member => ?_⟩ rest
      · dsimp only
        rw [List.map_append, ← List.append_assoc]
        exact perm.append_right _
      · rcases List.mem_append.mp member with old | new
        · exact workers q old
        · rw [List.mem_singleton.mp new]
          exact s.eventLoopThreadPool_.getNextLoop_mem

/-- A descriptor that cannot be used is left behind. -/
theorem acceptFrom_unusable {s : Server} (taken : Taken) {os : List AcceptOutcome}
    {o : AcceptOutcome} (member : o ∈ os) (unusable : ¬o.Usable)
    (balanced : taken.closed.length + taken.queued.length = taken.accepted.length) :
    (s.acceptFrom taken os).2.closed.length + (s.acceptFrom taken os).2.queued.length <
      (s.acceptFrom taken os).2.accepted.length := by
  induction os generalizing s taken with
  | nil => cases member
  | cons first os ih =>
    rw [acceptFrom]
    dsimp only
    split
    next =>
      rw [List.length_append]
      exact balanced ▸ Nat.lt_succ_self _
    -- A usable result keeps the balance, so the bad one is among the later ones.
    next positive =>
      split
      next large =>
        refine ih _ ?_ (by simp; omega)
        rcases List.mem_cons.mp member with rfl | later
        · exact absurd ⟨positive, fun small => absurd large (Nat.not_le_of_lt small)⟩ unusable
        · exact later
      next =>
        split
        -- The descriptor is neither closed nor queued when `handNewConn` returns here.
        next =>
          rw [List.length_append]
          exact balanced ▸ Nat.lt_succ_self _
        next blocking =>
          refine ih _ ?_ (by simp; omega)
          rcases List.mem_cons.mp member with rfl | later
          · exact absurd ⟨positive, fun _ => by simpa using blocking⟩ unusable
          · exact later

/-! ### A turn -/

/-- What the kernel reports of a listening descriptor comes to `handNewConn` or to no handler. -/
theorem reported_readable {ready : Ready} (within : ready.Within (EPOLLIN ||| EPOLLET))
    (heard : returnsEarly ready.events = false) :
    ready.events.has (EPOLLIN ||| EPOLLPRI ||| EPOLLRDHUP) = true := by
  obtain ⟨readable, writable, failed, hungUp⟩ := ready
  revert readable writable failed hungUp
  decide

theorem Listening.reported_within {s : Server} (listening : s.Listening) {ready : Ready}
    (reported : s.reported ready) : ready.Within (EPOLLIN ||| EPOLLET) := by
  obtain ⟨_, reg, interest, _, within⟩ := reported
  cases listening.registered.2.symm.trans interest
  exact within

/-- The registration outlasts its event. -/
theorem Listening.handOut {s : Server} (listening : s.Listening) (ready : Ready) :
    (s.handOut ready).Listening := by
  obtain ⟨⟨chan, interest⟩, last⟩ := listening
  refine ⟨⟨chan, ?_⟩, last⟩
  unfold Server.handOut
  rw [interest]
  rfl

/-- Where nothing has changed the poller is not asked. -/
theorem handThisConn_same {s : Server}
    (same : s.acceptChannel_.lastEvents_ = s.acceptChannel_.events_) (epollCtl : Bool) :
    s.handThisConn epollCtl = { s with
      acceptChannel_ := { s.acceptChannel_ with lastEvents_ := s.acceptChannel_.events_ } } :=
  if_pos same

theorem handleEvents_early {s : Server} {t : Turn}
    (early : returnsEarly s.acceptChannel_.revents_ = true) :
    s.handleEvents t = (s.setEvents 0, ⟨[], [], []⟩) := if_pos early

theorem handleEvents_reads {s : Server} {t : Turn}
    (heard : returnsEarly s.acceptChannel_.revents_ = false)
    (readable : s.acceptChannel_.revents_.has (EPOLLIN ||| EPOLLPRI ||| EPOLLRDHUP) = true) :
    s.handleEvents t = (((s.setEvents 0).handNewConn t.outcomes).1.handThisConn t.epollCtl,
      ((s.setEvents 0).handNewConn t.outcomes).2) := by
  unfold handleEvents
  dsimp only [setEvents]
  rw [heard, readable]
  rfl

theorem handleEvents_usable {s : Server} (listening : s.Listening) {t : Turn} (usable : t.Usable)
    (revents : s.acceptChannel_.revents_ = t.ready.events)
    (within : t.ready.Within (EPOLLIN ||| EPOLLET)) :
    (s.handleEvents t).2.Settled s.eventLoopThreadPool_ ∧ (s.handleEvents t).1.Listening := by
  have nothing : Taken.Settled s.eventLoopThreadPool_ ⟨[], [], []⟩ := ⟨.nil, nofun⟩
  -- An event that `handleEvents` returns on leaves nothing accepted.
  cases heard : returnsEarly t.ready.events with
  | true =>
    rw [handleEvents_early (revents ▸ heard)]
    exact ⟨nothing, listening.registered, listening.lastEvents_⟩
  | false =>
    rw [handleEvents_reads (revents ▸ heard) (revents ▸ reported_readable within heard)]
    obtain ⟨settled, events⟩ := acceptFrom_usable (s := s.setEvents 0) nothing (usable heard)
    obtain ⟨_, pool, _, eq⟩ := acceptFrom_frame (s.setEvents 0) ⟨[], [], []⟩ t.outcomes
    refine ⟨settled, ?_⟩
    unfold handNewConn
    rw [eq] at events ⊢
    -- The mask is asked for again as it was registered, so no `epoll_ctl` is needed.
    rw [handThisConn_same]
    · exact ⟨listening.registered, events⟩
    · exact listening.lastEvents_.trans events.symm

theorem handleEvents_unusable {s : Server} {t : Turn} (unusable : ¬t.Usable)
    (revents : s.acceptChannel_.revents_ = t.ready.events)
    (within : t.ready.Within (EPOLLIN ||| EPOLLET)) (pool : EventLoopThreadPool) :
    ¬(s.handleEvents t).2.Settled pool := by
  unfold Turn.Usable at unusable
  push Not at unusable
  obtain ⟨heard, o, member, wrong⟩ := unusable
  rintro ⟨perm, _⟩
  rw [handleEvents_reads (revents ▸ heard) (revents ▸ reported_readable within heard)] at perm
  have lost := acceptFrom_unusable (s := s.setEvents 0) ⟨[], [], []⟩ member wrong rfl
  have counted := perm.length_eq
  rw [List.length_append, List.length_map] at counted
  exact absurd counted (Nat.ne_of_lt lost)

/-- From a listening server a turn settles everything exactly where its descriptors are usable. -/
theorem settles_iff {s s' : Server} (listening : s.Listening) {t : Turn}
    (taken : machine.step s t = some s') :
    (s.Settles t ↔ t.Usable) ∧ (t.Usable → s'.Listening) := by
  obtain ⟨p, turned, rfl⟩ := Option.map_eq_some_iff.mp taken
  unfold Settles
  rw [turned]
  unfold turn at turned
  split at turned
  next reported =>
    cases turned
    have within := listening.reported_within reported
    have usable (usable : t.Usable) := handleEvents_usable (listening.handOut t.ready) usable rfl within
    constructor
    · constructor
      -- A turn with a bad result leaves a descriptor that is neither closed nor queued.
      · intro settles
        by_contra unusable
        exact handleEvents_unusable unusable rfl within _ (settles _ rfl).1
      · rintro good _ ⟨⟩
        exact ⟨(usable good).1, (usable good).2.registered⟩
    · exact fun good => (usable good).2
  next => cases turned

end Server

/-- In every run of the main loop each turn of the listening channel settles the descriptors it
accepts and leaves the channel registered, exactly where no descriptor is 0 or below `MAXFDS` and
cannot be made non-blocking. -/
theorem accept_loop_iff {s : Server} (started : Server.machine.init s) (ts : List Server.Turn) :
    Server.machine.Along (fun s t _ => s.Settles t) s ts ↔
      Server.machine.Along (fun _ t _ => t.Usable) s ts := by
  apply Machine.along_iff (I := Server.Listening) ts
  · exact fun s t s' _ listening taken => (Server.settles_iff listening taken).1
  · exact fun s t s' _ listening taken => (Server.settles_iff listening taken).2
  · obtain ⟨pool, rfl⟩ := started
    exact ⟨⟨rfl, rfl⟩, rfl⟩

/-- A server with two worker loops. -/
def Server.sample : Server := .start ⟨[1, 2], 2, 0, rfl, by decide⟩ true

/-- A connection that the listening descriptor tells of, with what `accept` returns. -/
def Server.incoming (outcomes : List AcceptOutcome) : Server.Turn :=
  ⟨⟨true, false, false, false⟩, outcomes, true⟩

theorem accept_loop_iff_full :
    Server.machine.Along (fun s t _ => s.Settles t) .sample
      [Server.incoming [⟨7, true⟩, ⟨100000, false⟩, ⟨8, true⟩], Server.incoming [⟨9, true⟩]] :=
  (accept_loop_iff ⟨_, rfl⟩ _).mpr (by decide)

/-- A descriptor that cannot be made non-blocking is never closed, and the listener is told of no
events any more. -/
theorem nonblocking_failure_leaks : ∃ s' taken,
    Server.sample.turn (Server.incoming [⟨7, false⟩, ⟨8, true⟩]) = some (s', taken) ∧
      taken = ⟨[7], [], []⟩ ∧ s'.interest = some ⟨0, true⟩ ∧
      s'.turn (Server.incoming [⟨8, true⟩]) = none ∧
      ¬Server.sample.Settles (Server.incoming [⟨7, false⟩, ⟨8, true⟩]) := by
  refine ⟨_, _, rfl, rfl, rfl, ?_, ?_⟩
  · decide
  · decide

end LightAgent

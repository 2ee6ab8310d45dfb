import LightAgent.HttpData.Counterparts
import LightAgent.HttpData.Surroundings
import LightAgent.Reactor.FailStop

/-!
# Connections do not interfere

A run is projected to what it brings to one connection: the hand-out of its events and the calls
of its handlers, with what the kernel does in each. What becomes of the connection depends on
that alone, whatever the other connections of its loop, the other loops and the accepting thread
do in between.
-/
namespace LightAgent

open Library Function

/-- What a run brings to one connection. -/
inductive Encounter where
  /-- `newEvent` -/
  | enters (a : Arrival)
  /-- `epoll_wait` reports its descriptor -/
  | reported (ready : Ready)
  /-- `handleEvents` -/
  | handled (a : Arrival)
  /-- `handleClose`, called by `~TimerNode` -/
  | expires (a : Arrival)
  deriving DecidableEq

instance (s : Conn) : Decidable s.heard := inferInstanceAs (Decidable (_ = _))

def Conn.given (s : Conn) (a : Arrival) : Conn := { s with wire := s.wire.meets a }

/-- An event uses up the registration. -/
def Conn.fired (s : Conn) : Conn :=
  { s with epoll := { s.epoll with
    interest := update s.epoll.interest s.http.fd_
      ((s.epoll.interest s.http.fd_).map Reactor.Registration.fire) } }

/-- The event goes to the channel if the table has it. -/
def Conn.reported (s : Conn) (ready : Ready) : Conn :=
  if s.heard then { s.fired with http := { s.http with
    channel_ := { s.http.channel_ with revents_ := ready.events, events_ := 0 } } }
  else s.fired

/-- A report is a matter of the channel and the registration. -/
theorem Conn.reported_frame (s : Conn) (ready : Ready) : ∃ channel interest, s.reported ready =
    ⟨{ s.http with channel_ := channel }, s.wire, { s.epoll with interest := interest }⟩ := by
  unfold Conn.reported
  split
  · exact ⟨_, _, rfl⟩
  · exact ⟨s.http.channel_, _, rfl⟩

theorem Conn.reported_heard (s : Conn) (ready : Ready) : (s.reported ready).heard ↔ s.heard := by
  obtain ⟨channel, interest, same⟩ := s.reported_frame ready
  rw [same]
  rfl

theorem Conn.reported_listed (s : Conn) (ready : Ready) : (s.reported ready).listed ↔ s.listed := by
  obtain ⟨channel, interest, same⟩ := s.reported_frame ready
  rw [same]
  rfl

/-- The nodes of the connection are popped. -/
def Conn.expired (s : Conn) : Conn :=
  let tm := s.epoll.timerManager_
  s.setTimers { tm with timerNodeQueue :=
    tm.timerNodeQueue.filter fun node => node.SPHttpData ≠ some s.http.this }

def Conn.encounter (w : World) (s : Conn) : Encounter → Conn
  | .enters a => newEvent (s.given a)
  | .reported ready => s.reported ready
  | .handled a => handleEvents w (s.given a)
  | .expires a => handleClose (s.expired.given a)

/-- A connection without a server around it. -/
def Conn.alone : Conn := ⟨.new 0 0 0, .idle, .new⟩

namespace Reactor

/-- The connection with the poller of its loop. -/
def view (r : Reactor) (cl : Client) : Conn := ⟨cl.http, cl.wire, (r.loops cl.http.loop_).epoll⟩

/-- The events of a descriptor. -/
def eventsAt (fd : Fd) (events : List (Fd × Ready)) : List Encounter :=
  (events.filter fun e => e.1 = fd).map fun e => .reported e.2

/-- What a step brings to the connection. -/
def encounters (c : ConnId) (r : Reactor) (l : Label) : List Encounter :=
  match l with
  | .poll ℓ events _ =>
    match r.conns c with
    | some cl => if cl.http.loop_ = ℓ then eventsAt cl.http.fd_ events else []
    | none => []
  | .handle _ a => if r.subject l = some c then [.handled a] else []
  | .runFunctor _ a => if r.subject l = some c then [.enters a] else []
  | .expire _ _ a => if r.subject l = some c then [.expires a] else []
  | _ => []

/-- Which step brings what. -/
inductive Occurs (c : ConnId) (r : Reactor) : Label → Encounter → Prop
  | reported {ℓ : LoopId} {events : List (Fd × Ready)} {woken : Bool} {cl : Client} {ready : Ready} :
      r.conns c = some cl → cl.http.loop_ = ℓ → (cl.http.fd_, ready) ∈ events →
      Occurs c r (.poll ℓ events woken) (.reported ready)
  | handled {ℓ : LoopId} {a : Arrival} : r.subject (.handle ℓ a) = some c →
      Occurs c r (.handle ℓ a) (.handled a)
  | enters {ℓ : LoopId} {a : Arrival} : r.subject (.runFunctor ℓ a) = some c →
      Occurs c r (.runFunctor ℓ a) (.enters a)
  | expires {ℓ : LoopId} {id : TimerId} {a : Arrival} : r.subject (.expire ℓ id a) = some c →
      Occurs c r (.expire ℓ id a) (.expires a)

theorem encounters_occurs {c : ConnId} {r : Reactor} {l : Label} {e : Encounter}
    (member : e ∈ encounters c r l) : Occurs c r l e := by
  cases l with
  | poll ℓ events woken =>
    unfold encounters at member
    dsimp only at member
    split at member
    next cl alive =>
      obtain ⟨here, listed⟩ := List.mem_ite_nil_right.mp member
      obtain ⟨⟨fd, ready⟩, own, rfl⟩ := List.mem_map.mp listed
      obtain ⟨inside, same⟩ := List.mem_filter.mp own
      obtain rfl : fd = cl.http.fd_ := of_decide_eq_true same
      exact .reported alive here inside
    next => cases member
  | handle ℓ a =>
    obtain ⟨own, single⟩ := List.mem_ite_nil_right.mp member
    cases List.mem_singleton.mp single
    exact .handled own
  | runFunctor ℓ a =>
    obtain ⟨own, single⟩ := List.mem_ite_nil_right.mp member
    cases List.mem_singleton.mp single
    exact .enters own
  | expire ℓ id a =>
    obtain ⟨own, single⟩ := List.mem_ite_nil_right.mp member
    cases List.mem_singleton.mp single
    exact .expires own
  | _ => cases member

/-! ### The connection on its own -/

/-- Its timers are in order. -/
def InOrder (s : Conn) : Prop := ∃ link, s.Timed link

theorem alone_inOrder : InOrder .alone := by
  refine ⟨fun _ => none, ?_⟩
  unfold Conn.Timed
  rw [show Conn.alone.http.timer_ = none from rfl, update_eq_self_iff.mpr rfl]
  exact linked_new

theorem InOrder.same {s s' : Conn} (order : InOrder s) (same : SameTimer s s')
    (this : s'.http.this = s.http.this) : InOrder s' := by
  obtain ⟨link, timed⟩ := order
  exact ⟨link, timed.same same this⟩

theorem InOrder.given {s : Conn} (order : InOrder s) (a : Arrival) : InOrder (s.given a) :=
  order.same ⟨rfl, rfl⟩ rfl

theorem InOrder.reported {s : Conn} (order : InOrder s) (ready : Ready) :
    InOrder (s.reported ready) := by
  obtain ⟨channel, interest, same⟩ := s.reported_frame ready
  rw [same]
  exact order.same ⟨rfl, rfl⟩ rfl

theorem InOrder.expired {s : Conn} (order : InOrder s) : InOrder s.expired := by
  obtain ⟨link, timed⟩ := order
  exact ⟨link, Linked.filter timed _⟩

theorem InOrder.handleClose {s : Conn} (order : InOrder s) : InOrder (handleClose s) :=
  order.same (handleClose_closed s).timers (handleClose_closed s).effect.this

theorem InOrder.newEvent {s : Conn} (order : InOrder s) (none_left : s.deadlines = [])
    (held : s.http.channel_.holder_ = some s.http.this) : InOrder (newEvent s) := by
  obtain ⟨link, timed⟩ := order
  have detached := TimerManager.detached_iff.mpr none_left
  refine ⟨link, (timed.add_timer detached held DEFAULT_EXPIRED_TIME).1.same
    (newEvent_entered s).timers ?_⟩
  exact (newEvent_effect s).this.trans (add_timer_this s _).symm

theorem InOrder.handleEvents {s : Conn} (order : InOrder s) (w : World)
    (held : s.http.channel_.holder_ = some s.http.this) : InOrder (handleEvents w s) := by
  obtain ⟨link, timed⟩ := order
  exact ⟨link, handleEvents_timed w timed held⟩

end Reactor

namespace Counterpart

variable {s t : Conn}

theorem given (counterpart : Counterpart s t) (a : Arrival) : Counterpart (s.given a) (t.given a) :=
  counterpart.meets a

theorem fired (counterpart : Counterpart s t) : Counterpart s.fired t.fired := by
  obtain ⟨⟨p, rfl⟩, held, listed, heard, registration, deadlines⟩ := counterpart
  refine ⟨.of_http (q := p) rfl rfl, held, listed, heard, ?_, deadlines⟩
  unfold Conn.registration Conn.fired at *
  dsimp only
  rw [update_self, update_self, registration]

theorem reported (counterpart : Counterpart s t) (ready : Ready) :
    Counterpart (s.reported ready) (t.reported ready) := by
  have fired := counterpart.fired
  unfold Conn.reported
  simp only [counterpart.heard]
  split
  · obtain ⟨p, rfl⟩ := counterpart.elsewhere
    exact { fired with elsewhere := .of_http (q := p) rfl rfl }
  · exact fired

/-- The timeout of both is over. -/
theorem expired (counterpart : Counterpart s t) (tm : TimerManager)
    (none_left : tm.deadlines s.http.this = []) : Counterpart (s.setTimers tm) t.expired := by
  obtain ⟨⟨p, rfl⟩, held, listed, heard, registration, _⟩ := counterpart
  refine ⟨.of_http (q := p) rfl rfl, held, listed, heard, registration, ?_⟩
  refine (TimerManager.Detached.deadlines fun node queued refers => ?_).trans none_left.symm
  exact of_decide_eq_true (List.mem_filter.mp queued).2 refers

end Counterpart

namespace Reactor

variable {r r' : Reactor} {c : ConnId} {cl : Client}

/-! ### What a step does to other connections -/

/-- A descriptor is registered for a live connection of the loop. -/
def Owned (r : Reactor) : Prop :=
  ∀ ℓ fd, (r.loops ℓ).epoll.interest fd ≠ none →
    ∃ c cl, r.conns c = some cl ∧ cl.http.loop_ = ℓ ∧ cl.http.fd_ = fd

/-- A connection that is alive afterwards was alive before, and is what it was. -/
def Undisturbed (r r' : Reactor) (c : ConnId) : Prop :=
  ∀ cl, r'.conns c = some cl → r.conns c = some cl ∧ Counterpart (r.view cl) (r'.view cl)

theorem Undisturbed.trans {r₁ r₂ r₃ : Reactor} (first : Undisturbed r₁ r₂ c)
    (second : Undisturbed r₂ r₃ c) : Undisturbed r₁ r₃ c := by
  intro cl alive
  obtain ⟨before, later⟩ := second cl alive
  obtain ⟨start, sooner⟩ := first cl before
  exact ⟨start, sooner.trans later⟩

/-- Where the tables have the same at the descriptor of the connection, and the same timeouts. -/
theorem Undisturbed.of_slots (sound : r.Sound) (conns : r'.conns c = r.conns c)
    (slots : ∀ cl, r.conns c = some cl →
      (r'.loops cl.http.loop_).epoll.fd2http_ cl.http.fd_ =
        (r.loops cl.http.loop_).epoll.fd2http_ cl.http.fd_ ∧
      (r'.loops cl.http.loop_).epoll.fd2chan_ cl.http.fd_ =
        (r.loops cl.http.loop_).epoll.fd2chan_ cl.http.fd_ ∧
      (r'.loops cl.http.loop_).epoll.interest cl.http.fd_ =
        (r.loops cl.http.loop_).epoll.interest cl.http.fd_ ∧
      (r'.loops cl.http.loop_).epoll.timerManager_.deadlines c =
        (r.loops cl.http.loop_).epoll.timerManager_.deadlines c) : Undisturbed r r' c := by
  intro cl alive
  rw [conns] at alive
  obtain ⟨this, held, _⟩ := sound.named c cl alive
  obtain ⟨listed, heard, registration, deadlines⟩ := slots cl alive
  have own := Counterpart.refl (s := r.view cl) (held.trans (congrArg some this.symm))
  refine ⟨alive, ?_, own.held, ?_, ?_, registration, ?_⟩
  · obtain ⟨q, eq⟩ := own.elsewhere
    exact .of_http (q := q) (congrArg Conn.http eq) rfl
  · unfold Conn.listed view
    dsimp only
    rw [listed]
  · unfold Conn.heard view
    dsimp only
    rw [heard]
  · unfold Conn.deadlines view
    dsimp only
    rw [this, deadlines]

theorem Undisturbed.of_epoll (sound : r.Sound) (conns : r'.conns c = r.conns c)
    (epoll : ∀ ℓ, (r'.loops ℓ).epoll = (r.loops ℓ).epoll) : Undisturbed r r' c := by
  refine .of_slots sound conns fun cl _ => ?_
  rw [epoll]
  exact ⟨rfl, rfl, rfl, rfl⟩

theorem Undisturbed.refl (sound : r.Sound) : Undisturbed r r c :=
  .of_epoll sound rfl fun _ => rfl

/-- Another connection that is destroyed takes its own registration with it. -/
theorem release_undisturbed (sound : r.Sound) (d : ConnId) : Undisturbed r (r.release d) c := by
  have loops := release_loop r d
  rcases release_conns r d with stays | ⟨dl, alive, conns, interest⟩
  · rw [stays]
    exact .refl sound
  · by_cases same : c = d
    · intro cl alive'
      rw [conns, same, update_self] at alive'
      cases alive'
    · refine .of_slots sound (by rw [conns, update_of_ne same]) fun cl alive' => ?_
      -- Different connections have different descriptors.
      have elsewhere : cl.http.fd_ ≠ dl.http.fd_ :=
        fun eq => same (sound.distinct c d cl dl alive' alive eq)
      rw [(loops _).fd2http_, (loops _).fd2chan_, (loops _).timerManager_, interest _ _ elsewhere]
      exact ⟨rfl, rfl, rfl, rfl⟩

theorem releases_undisturbed (sound : r.Sound) (ds : List ConnId) :
    Undisturbed r (ds.foldl release r) c := by
  induction ds generalizing r with
  | nil => exact .refl sound
  | cons d ds ih => exact (release_undisturbed sound d).trans (ih (sound.release d))

/-- A handler of another connection. -/
theorem store_undisturbed (sound : r.Sound) {d : ConnId} {dl : Client} (alive : r.conns d = some dl)
    (other : c ≠ d) {a : Arrival} {s : Conn}
    (effect : TableEffect (dl.conn a (r.loops dl.http.loop_).epoll) s)
    (others : ∀ fd, fd ≠ dl.http.fd_ →
      s.epoll.interest fd = (r.loops dl.http.loop_).epoll.interest fd)
    (deadlines : s.epoll.timerManager_.deadlines c =
      (r.loops dl.http.loop_).epoll.timerManager_.deadlines c) :
    Undisturbed r (r.store d s) c := by
  have loop_ : s.http.loop_ = dl.http.loop_ := effect.loop_
  refine .of_slots sound (update_of_ne other _ _) fun cl alive' => ?_
  by_cases same : cl.http.loop_ = dl.http.loop_
  · have elsewhere : cl.http.fd_ ≠ dl.http.fd_ :=
      fun eq => other (sound.distinct c d cl dl alive' alive eq)
    have stored : ((r.store d s).loops dl.http.loop_).epoll = s.epoll := by
      rw [← loop_, store_epoll]
    obtain ⟨_, http, _⟩ := effect.http
    obtain ⟨_, chan, _⟩ := effect.chan
    rw [same, stored, http, chan]
    exact ⟨update_of_ne elsewhere _ _, update_of_ne elsewhere _ _, others _ elsewhere, deadlines⟩
  · rw [store_of_ne r d (loop_ ▸ same)]
    exact ⟨rfl, rfl, rfl, rfl⟩

/-- What a handler of the connection leaves, as the connection sees it. -/
theorem store_view (r : Reactor) (c : ConnId) (s : Conn) : (r.store c s).view ⟨s.http, s.wire⟩ = s := by
  unfold view
  dsimp only
  rw [store_epoll]

/-- A node that refers to another connection, or to none, is popped. -/
theorem pop_undisturbed (sound : r.Sound) (timed : r.Timed) {ℓ : LoopId} {node : TimerNode}
    (found : (r.loops ℓ).epoll.timerManager_.timerNodeQueue.find? (·.id = node.id) = some node)
    (other : node.SPHttpData ≠ some c) : Undisturbed r (r.pop ℓ node.id) c := by
  refine .of_slots sound rfl fun cl _ => ?_
  by_cases same : cl.http.loop_ = ℓ
  · subst same
    rw [Reactor.pop, setEpoll_epoll]
    refine ⟨rfl, rfl, rfl, ?_⟩
    unfold TimerManager.deadlines
    dsimp only
    rw [List.filter_filter]
    refine congrArg (List.map _) (List.filter_congr fun m queued => ?_)
    -- The nodes of that name are this one.
    by_cases refers : m.SPHttpData = some c
    · have differs : m.id ≠ node.id := fun same => other (timed.only found queued same ▸ refers)
      simp [refers, differs]
    · simp [refers]
  · rw [Reactor.pop, setEpoll_of_ne r ℓ same]
    exact ⟨rfl, rfl, rfl, rfl⟩

/-- The node that was popped was the only one that referred to the connection. -/
theorem pop_deadlines (timed : r.Timed) {ℓ : LoopId} {node : TimerNode}
    (found : (r.loops ℓ).epoll.timerManager_.timerNodeQueue.find? (·.id = node.id) = some node)
    (refers : node.SPHttpData = some c) :
    ((r.pop ℓ node.id).loops ℓ).epoll.timerManager_.deadlines c = [] := by
  rw [Reactor.pop, setEpoll_epoll]
  refine TimerManager.Detached.deadlines fun m queued refers' => ?_
  obtain ⟨member, differs⟩ := List.mem_filter.mp queued
  have same := (timed.linked ℓ).unique member (List.mem_of_find?_eq_some found) refers' refers
  exact of_decide_eq_true differs (congrArg TimerNode.id same)

/-! ### Registrations belong to connections -/

theorem owned_new : new.Owned := fun _ _ registered => absurd rfl registered

theorem Owned.of_interest {r' : Reactor} (owned : r.Owned)
    (interest : ∀ ℓ fd, (r'.loops ℓ).epoll.interest fd ≠ none → (r.loops ℓ).epoll.interest fd ≠ none)
    (conns : ∀ d dl, r.conns d = some dl → ∃ new, r'.conns d = some new ∧
      new.http.loop_ = dl.http.loop_ ∧ new.http.fd_ = dl.http.fd_) : r'.Owned := by
  intro ℓ fd registered
  obtain ⟨d, dl, alive, loop, same⟩ := owned ℓ fd (interest ℓ fd registered)
  obtain ⟨new, alive', loop', same'⟩ := conns d dl alive
  exact ⟨d, new, alive', loop'.trans loop, same'.trans same⟩

theorem Owned.store (owned : r.Owned) (alive : r.conns c = some cl) {a : Arrival} {s : Conn}
    (effect : TableEffect (cl.conn a (r.loops cl.http.loop_).epoll) s)
    (others : ∀ fd, fd ≠ cl.http.fd_ →
      s.epoll.interest fd = (r.loops cl.http.loop_).epoll.interest fd) : (r.store c s).Owned := by
  have loop_ : s.http.loop_ = cl.http.loop_ := effect.loop_
  have own : (r.store c s).conns c = some ⟨s.http, s.wire⟩ := update_self _ _ _
  intro ℓ fd registered
  by_cases here : ℓ = cl.http.loop_ ∧ fd = cl.http.fd_
  · exact ⟨c, _, own, loop_.trans here.1.symm, effect.fd_.trans here.2.symm⟩
  -- Everything else was registered before.
  have before : (r.loops ℓ).epoll.interest fd ≠ none := by
    by_cases same : ℓ = cl.http.loop_
    · subst same
      rw [← loop_, store_epoll, others fd fun eq => here ⟨rfl, eq⟩] at registered
      exact registered
    · rw [store_of_ne r c (loop_ ▸ same)] at registered
      exact registered
  obtain ⟨d, dl, alive', loop, same⟩ := owned ℓ fd before
  by_cases this : d = c
  · subst this
    cases alive.symm.trans alive'
    exact absurd ⟨loop.symm, same.symm⟩ here
  · exact ⟨d, dl, (update_of_ne this _ _).trans alive', loop, same⟩

theorem Owned.setPoint (owned : r.Owned) (ℓ : LoopId) (point : LoopPoint) :
    (r.setPoint ℓ point).Owned :=
  owned.of_interest (fun ℓ' fd => by rw [setPoint_epoll]; exact id)
    fun d dl alive => ⟨dl, alive, rfl, rfl⟩

/-- The descriptor that is closed is no longer registered. -/
theorem Owned.release (owned : r.Owned) (c : ConnId) : (r.release c).Owned := by
  unfold Reactor.release
  cases alive : r.conns c with
  | none => exact owned
  | some cl =>
    dsimp only
    split
    · exact owned
    · intro ℓ fd registered
      change ((r.setEpoll _ _).loops ℓ).epoll.interest fd ≠ none at registered
      have away : ¬(ℓ = cl.http.loop_ ∧ fd = cl.http.fd_) := by
        rintro ⟨rfl, rfl⟩
        rw [setEpoll_epoll] at registered
        exact registered (update_self _ _ _)
      have before : (r.loops ℓ).epoll.interest fd ≠ none := by
        by_cases same : ℓ = cl.http.loop_
        · subst same
          rw [setEpoll_epoll] at registered
          rw [← update_of_ne (fun eq => away ⟨rfl, eq⟩) none (r.loops cl.http.loop_).epoll.interest]
          exact registered
        · rw [setEpoll_of_ne r _ same] at registered
          exact registered
      obtain ⟨d, dl, alive', loop, same⟩ := owned ℓ fd before
      have other : d ≠ c := by
        rintro rfl
        cases alive.symm.trans alive'
        exact away ⟨loop.symm, same.symm⟩
      exact ⟨d, dl, (update_of_ne other _ _).trans alive', loop, same⟩

theorem Owned.report (owned : r.Owned) (ℓ : LoopId) (e : Fd × Ready) :
    (Reactor.report ℓ r e).Owned := by
  refine owned.of_interest (fun ℓ' fd => ?_) fun d dl alive => ?_
  · rw [report_interest]
    split
    · intro registered none_before
      rw [none_before] at registered
      exact registered rfl
    · exact id
  · rw [report_conns, alive]
    split
    · exact ⟨_, rfl, rfl, rfl⟩
    · exact ⟨dl, rfl, rfl, rfl⟩

theorem Owned.reports (owned : r.Owned) (ℓ : LoopId) (events : List (Fd × Ready)) :
    (events.foldl (Reactor.report ℓ) r).Owned := by
  induction events generalizing r with
  | nil => exact owned
  | cons e events ih => exact ih (owned.report ℓ e)

theorem Owned.releases (owned : r.Owned) (cs : List ConnId) : (cs.foldl Reactor.release r).Owned := by
  induction cs generalizing r with
  | nil => exact owned
  | cons c cs ih => exact ih (owned.release c)

theorem Owned.step {w : ConnId → World} {l : Label} (owned : r.Owned) (sound : r.Sound)
    (taken : Reactor.step w r l = some r') : r'.Owned := by
  have same (d : ConnId) (dl : Client) (alive : r.conns d = some dl) : ∃ new, r.conns d = some new ∧
      new.http.loop_ = dl.http.loop_ ∧ new.http.fd_ = dl.http.fd_ := ⟨dl, alive, rfl, rfl⟩
  cases step_steps taken with
  | accept fd ℓ nonBlocking _ _ =>
    refine owned.of_interest (fun ℓ' fd' => by rw [acceptConn_epoll]; exact id) fun d dl alive => ?_
    rcases acceptConn_conns r ℓ fd nonBlocking with kept | new
    · exact ⟨dl, by rw [kept]; exact alive, rfl, rfl⟩
    -- The new connection has a new name.
    · have old : d ≠ r.nextConn := Nat.ne_of_lt (sound.named d dl alive).2.2
      exact ⟨dl, by rw [new, update_of_ne old]; exact alive, rfl, rfl⟩
  | accepted c _ =>
    have local_ : Owned { r with req_info := none } := owned
    exact local_.release c
  | poll ℓ events woken _ _ => exact (owned.reports ℓ events).setPoint ℓ _
  | handle ℓ a c ret r₁ point called =>
    obtain ⟨cl, alive, rfl, _, _, _, _, rfl⟩ := sound.handle_inv point called
    refine ((owned.setPoint _ _).store (a := a) alive ?_ fun fd other => ?_).release c
    · rw [setPoint_epoll]
      exact handleEvents_effect (w c) _
    · rw [setPoint_epoll]
      exact handleEvents_others (w c) _ other
  | startFunctors ℓ _ =>
    exact owned.of_interest (fun ℓ' fd => by rw [swapFunctors_epoll]; exact id) same
  | runFunctor ℓ a done c rest r₁ point called =>
    obtain ⟨cl, alive, rfl, _, _, _, rfl⟩ := sound.functor_inv point called
    refine (owned.setPoint _ _).store (a := a) alive ?_ fun fd other => ?_
    · rw [setPoint_epoll]
      exact newEvent_effect _
    · rw [setPoint_epoll]
      exact newEvent_others _ other
  | endFunctors ℓ done _ => exact (owned.setPoint ℓ .expiring).releases done
  | drop ℓ a node _ _ _ => exact owned.of_interest (fun ℓ' fd => by rw [pop_interest]; exact id) same
  | close ℓ a node c r₁ point found refers called =>
    obtain ⟨cl, alive, rfl, _, rfl⟩ := sound.close_inv point found refers called
    have popped : (r.pop cl.http.loop_ node.id).Owned :=
      owned.of_interest (fun ℓ' fd => by rw [pop_interest]; exact id) same
    have closed := handleClose_closed
      (cl.conn a ((r.pop cl.http.loop_ node.id).loops cl.http.loop_).epoll)
    exact (popped.store alive closed.effect fun fd other => closed.others other).release c
  | endExpire ℓ now _ => exact owned.setPoint ℓ .polling

/-! ### What a step does to the connection -/

/-- The connection is in its loop what `s` is on its own. -/
structure Mirrors (r : Reactor) (cl : Client) (s : Conn) : Prop where
  counterpart : Counterpart (r.view cl) s
  order : InOrder s

variable {s : Conn}

theorem Undisturbed.mirrors (undisturbed : Undisturbed r r' c)
    (mirrors : ∀ cl, r.conns c = some cl → Mirrors r cl s) (alive : r'.conns c = some cl) :
    Mirrors r' cl s := by
  obtain ⟨before, same⟩ := undisturbed cl alive
  exact ⟨same.symm.trans (mirrors cl before).counterpart, (mirrors cl before).order⟩

/-- One event, of the connection or of another one. -/
theorem report_mirrors (sound : r.Sound) (alive : r.conns c = some cl) (mirrors : Mirrors r cl s)
    (ℓ : LoopId) (e : Fd × Ready) : ∃ cl', (report ℓ r e).conns c = some cl' ∧
      cl'.http.loop_ = cl.http.loop_ ∧ cl'.http.fd_ = cl.http.fd_ ∧ Mirrors (report ℓ r e) cl'
        (if cl.http.loop_ = ℓ ∧ e.1 = cl.http.fd_ then s.reported e.2 else s) := by
  obtain ⟨fd, ready⟩ := e
  have this := (sound.named c cl alive).1
  have loops := report_loops r ℓ (fd, ready)
  have conns := report_conns r ℓ (fd, ready) c
  rw [alive] at conns
  by_cases own : cl.http.loop_ = ℓ ∧ fd = cl.http.fd_
  · obtain ⟨rfl, rfl⟩ := own
    have hears : (r.view cl).heard ↔ (r.loops cl.http.loop_).epoll.fd2chan_ cl.http.fd_ = some c := by
      unfold Conn.heard view
      dsimp only
      rw [this]
    have handed := mirrors.counterpart.reported ready
    rw [if_pos ⟨rfl, rfl⟩]
    -- The registration is used up, and the channel hears of the event where it is in the table.
    by_cases heard : (r.loops cl.http.loop_).epoll.fd2chan_ cl.http.fd_ = some c
    · rw [if_pos heard] at conns
      refine ⟨cl.handOut ready, conns, rfl, rfl, ⟨?_, mirrors.order.reported ready⟩⟩
      have view' : (report cl.http.loop_ r (cl.http.fd_, ready)).view (cl.handOut ready) =
          (r.view cl).reported ready := by
        unfold Conn.reported
        rw [if_pos (hears.mpr heard)]
        unfold view Client.handOut Conn.fired
        dsimp only
        rw [loops, setEpoll_epoll]
      rw [view']
      exact handed
    · rw [if_neg heard] at conns
      refine ⟨cl, conns, rfl, rfl, ⟨?_, mirrors.order.reported ready⟩⟩
      have view' : (report cl.http.loop_ r (cl.http.fd_, ready)).view cl =
          (r.view cl).reported ready := by
        unfold Conn.reported
        rw [if_neg (hears.not.mpr heard)]
        unfold view Conn.fired
        dsimp only
        rw [loops, setEpoll_epoll]
      rw [view']
      exact handed
  · rw [if_neg own]
    have unheard : (r.loops ℓ).epoll.fd2chan_ fd ≠ some c := by
      intro heard
      obtain ⟨rfl, rfl⟩ := sound.http_at alive (sound.chan ℓ fd c heard)
      exact own ⟨rfl, rfl⟩
    rw [if_neg unheard] at conns
    have tables := report_loop r ℓ (fd, ready) cl.http.loop_
    have undisturbed : Undisturbed r (report ℓ r (fd, ready)) c := by
      refine .of_slots sound (conns.trans alive.symm) fun cl' alive' => ?_
      cases alive.symm.trans alive'
      rw [tables.fd2http_, tables.fd2chan_, tables.timerManager_, report_interest,
        if_neg fun both => own ⟨both.1, both.2.symm⟩]
      exact ⟨rfl, rfl, rfl, rfl⟩
    refine ⟨cl, conns, rfl, rfl, undisturbed.mirrors (fun cl' alive' => ?_) conns⟩
    cases alive.symm.trans alive'
    exact mirrors

/-- The events of one call of `epoll_wait`. -/
theorem reports_mirrors (w : World) (sound : r.Sound) (alive : r.conns c = some cl)
    (mirrors : Mirrors r cl s) (ℓ : LoopId) (events : List (Fd × Ready)) :
    ∃ cl', (events.foldl (report ℓ) r).conns c = some cl' ∧
      Mirrors (events.foldl (report ℓ) r) cl'
        ((if cl.http.loop_ = ℓ then eventsAt cl.http.fd_ events else []).foldl (Conn.encounter w) s) := by
  induction events generalizing r cl s with
  | nil =>
    refine ⟨cl, alive, ?_⟩
    split
    · exact mirrors
    · exact mirrors
  | cons e events ih =>
    obtain ⟨cl', alive', loop, fd, next⟩ := report_mirrors sound alive mirrors ℓ e
    obtain ⟨cl'', alive'', rest⟩ := ih (sound.report ℓ e) alive' next
    refine ⟨cl'', alive'', ?_⟩
    rw [loop, fd] at rest
    by_cases here : cl.http.loop_ = ℓ
    · rw [if_pos here] at rest ⊢
      by_cases own : e.1 = cl.http.fd_
      · rw [if_pos ⟨here, own⟩] at rest
        rw [show eventsAt cl.http.fd_ (e :: events) =
          .reported e.2 :: eventsAt cl.http.fd_ events by simp [eventsAt, own]]
        exact rest
      · rw [if_neg fun both => own both.2] at rest
        rw [show eventsAt cl.http.fd_ (e :: events) = eventsAt cl.http.fd_ events by
          simp [eventsAt, own]]
        exact rest
    · rw [if_neg here] at rest ⊢
      rw [if_neg fun both => here both.1] at rest
      exact rest

/-- A handler of the connection, or of another one. -/
theorem store_mirrors (sound : r.Sound) {d : ConnId} {dl : Client} (alive : r.conns d = some dl)
    {a : Arrival} {t : Conn} (effect : TableEffect (dl.conn a (r.loops dl.http.loop_).epoll) t)
    (others : ∀ fd, fd ≠ dl.http.fd_ →
      t.epoll.interest fd = (r.loops dl.http.loop_).epoll.interest fd)
    (deadlines : c ≠ d → t.epoll.timerManager_.deadlines c =
      (r.loops dl.http.loop_).epoll.timerManager_.deadlines c)
    (own : c = d → Counterpart t s ∧ InOrder s)
    (other : c ≠ d → ∀ cl, r.conns c = some cl → Mirrors r cl s) {cl' : Client}
    (alive' : (r.store d t).conns c = some cl') : Mirrors (r.store d t) cl' s := by
  by_cases same : c = d
  · subst same
    have stored : (r.store c t).conns c = some ⟨t.http, t.wire⟩ := update_self _ _ _
    cases stored.symm.trans alive'
    obtain ⟨counterpart, order⟩ := own rfl
    exact ⟨(store_view r c t).symm ▸ counterpart, order⟩
  · exact (store_undisturbed sound alive same effect others (deadlines same)).mirrors (other same)
      alive'

/-- A step does to a connection what its encounters do to it on its own. -/
theorem step_mirrors {w : ConnId → World} {l : Label} (sound : r.Sound) (timed : r.Timed)
    (taken : step w r l = some r') (alive : r.conns c = some cl) (mirrors : Mirrors r cl s)
    {cl' : Client} (alive' : r'.conns c = some cl') :
    Mirrors r' cl' ((encounters c r l).foldl (Conn.encounter (w c)) s) := by
  have this := (sound.named c cl alive).1
  have only (cl₁ : Client) (alive₁ : r.conns c = some cl₁) : Mirrors r cl₁ s := by
    cases alive.symm.trans alive₁
    exact mirrors
  cases step_steps taken with
  | accept fd ℓ nonBlocking _ _ =>
    have conns : (r.acceptConn fd ℓ nonBlocking).conns c = r.conns c := by
      rcases acceptConn_conns r ℓ fd nonBlocking with kept | new
      · rw [kept]
      · rw [new, update_of_ne (Nat.ne_of_lt (sound.named c cl alive).2.2)]
    exact (Undisturbed.of_epoll sound conns (acceptConn_epoll r ℓ fd nonBlocking)).mirrors only alive'
  | accepted d _ =>
    have local_ : Undisturbed r { r with req_info := none } c :=
      .of_epoll sound rfl fun _ => rfl
    exact (local_.trans (release_undisturbed sound.forget d)).mirrors only alive'
  | poll ℓ events woken _ _ =>
    obtain ⟨cl₁, alive₁, reported⟩ := reports_mirrors (w c) sound alive mirrors ℓ events
    have goesOn : Undisturbed (events.foldl (report ℓ) r) (r.pollEvents ℓ events woken) c :=
      .of_epoll (sound.reports ℓ events) rfl (setPoint_epoll _ _ _)
    refine goesOn.mirrors (fun cl₂ alive₂ => ?_) alive'
    cases alive₁.symm.trans alive₂
    simp only [encounters, alive]
    exact reported
  | handle ℓ a d ret r₁ point called =>
    have stored := sound.handle point called
    obtain ⟨dl, alive₁, rfl, _, _, _, _, rfl⟩ := sound.handle_inv point called
    obtain ⟨this₁, held₁, _⟩ := sound.named d dl alive₁
    have found := timed.conn sound alive₁ a
    have stepped : Undisturbed r (r.setPoint dl.http.loop_ (.handling ret)) c :=
      .of_epoll sound rfl (setPoint_epoll _ _ _)
    have subject : r.subject (.handle dl.http.loop_ a) = some d := by
      simp [Reactor.subject, point, LoopPoint.ret]
    simp only [encounters, subject]
    refine (release_undisturbed stored d).mirrors (fun cl₁ alive₂ => ?_) alive'
    refine store_mirrors (a := a) (sound.nextHandler point) alive₁ ?_ (fun fd other => ?_)
      (fun other => ?_) (fun same => ?_) (fun other => ?_) alive₂
    · rw [setPoint_epoll]
      exact handleEvents_effect (w d) _
    · rw [setPoint_epoll]
      exact handleEvents_others (w d) _ other
    · rw [setPoint_epoll]
      exact handleEvents_deadlines (w d) found (this₁.symm ▸ other)
    · subst same
      cases alive.symm.trans alive₁
      obtain ⟨link, ordered⟩ := mirrors.order.given a
      rw [if_pos rfl]
      exact ⟨(mirrors.counterpart.given a).handleEvents (w c) found ordered,
        (mirrors.order.given a).handleEvents (w c) (mirrors.counterpart.given a).held'⟩
    · rw [if_neg fun same => other (Option.some.inj same).symm]
      exact fun cl₂ => stepped.mirrors only
  | startFunctors ℓ _ =>
    have stepped : Undisturbed r (r.swapFunctors ℓ) c :=
      .of_epoll sound rfl (swapFunctors_epoll r ℓ)
    exact stepped.mirrors only alive'
  | runFunctor ℓ a done d rest r₁ point called =>
    obtain ⟨dl, alive₁, rfl, waits, _, _, rfl⟩ := sound.functor_inv point called
    have this₁ := (sound.named d dl alive₁).1
    have stepped : Undisturbed r (r.setPoint dl.http.loop_ (.functors (done ++ [d]) rest)) c :=
      .of_epoll sound rfl (setPoint_epoll _ _ _)
    have subject : r.subject (.runFunctor dl.http.loop_ a) = some d := by
      simp [Reactor.subject, point, LoopPoint.waiting]
    simp only [encounters, subject]
    refine store_mirrors (a := a) (sound.nextFunctor point) alive₁ ?_ (fun fd other => ?_)
      (fun other => ?_) (fun same => ?_) (fun other => ?_) alive'
    · rw [setPoint_epoll]
      exact newEvent_effect _
    · rw [setPoint_epoll]
      exact newEvent_others _ other
    · rw [setPoint_epoll]
      exact newEvent_deadlines _ (this₁.symm ▸ other)
    · subst same
      cases alive.symm.trans alive₁
      have given := mirrors.counterpart.given a
      rw [if_pos rfl]
      refine ⟨given.newEvent, (mirrors.order.given a).newEvent ?_ given.held'⟩
      -- A connection that waits to enter its loop has no timeout.
      refine given.deadlines.trans (TimerManager.Detached.deadlines fun node queued refers => ?_)
      exact timed.settled queued (refers.trans (congrArg some this)) waits
    · rw [if_neg fun same => other (Option.some.inj same).symm]
      exact fun cl₂ => stepped.mirrors only
  | endFunctors ℓ done _ =>
    have stepped : Undisturbed r (r.setPoint ℓ .expiring) c :=
      .of_epoll sound rfl (setPoint_epoll _ _ _)
    exact (stepped.trans (releases_undisturbed (sound.rest ℓ rfl rfl) done)).mirrors only alive'
  | drop ℓ a node _ found idle =>
    have subject : r.subject (.expire ℓ node.id a) = none := by
      simp [Reactor.subject, found, idle]
    have popped := pop_undisturbed (c := c) sound timed found (by simp [idle])
    simp only [encounters, subject]
    exact popped.mirrors only alive'
  | close ℓ a node d r₁ point found refers called =>
    have stored := sound.close point found refers called
    obtain ⟨dl, alive₁, rfl, _, rfl⟩ := sound.close_inv point found refers called
    have closed := handleClose_closed
      (dl.conn a ((r.pop dl.http.loop_ node.id).loops dl.http.loop_).epoll)
    have subject : r.subject (.expire dl.http.loop_ node.id a) = some d := by
      simp [Reactor.subject, found, refers]
    simp only [encounters, subject]
    refine (release_undisturbed stored d).mirrors (fun cl₁ alive₂ => ?_) alive'
    refine store_mirrors (sound.pop _ node.id) alive₁ closed.effect (fun fd other => ?_)
      (fun other => ?_) (fun same => ?_) (fun other => ?_) alive₂
    · exact closed.others other
    · rw [closed.timers.timerManager_]
      rfl
    · subst same
      cases alive.symm.trans alive₁
      have none_left := pop_deadlines timed found refers
      rw [← this] at none_left
      have popped := mirrors.counterpart.expired _ none_left
      have view : (r.view cl).setTimers
          ((r.pop cl.http.loop_ node.id).loops cl.http.loop_).epoll.timerManager_ =
            (r.pop cl.http.loop_ node.id).view cl := by
        unfold Reactor.view Reactor.pop Conn.setTimers
        rw [setEpoll_epoll]
      rw [view] at popped
      rw [if_pos rfl]
      exact ⟨(popped.given a).handleClose, (mirrors.order.expired.given a).handleClose⟩
    · rw [if_neg fun same => other (Option.some.inj same).symm]
      refine fun cl₂ => (pop_undisturbed sound timed found ?_).mirrors only
      rw [refers]
      exact fun same => other (Option.some.inj same).symm
  | endExpire ℓ now _ =>
    have stepped : Undisturbed r (r.setPoint ℓ .polling) c :=
      .of_epoll sound rfl (setPoint_epoll _ _ _)
    exact stepped.mirrors only alive'

/-! ### A connection that is made -/

/-- Only `accept` gives out names. -/
theorem step_nextConn {w : ConnId → World} {l : Label} (taken : step w r l = some r') :
    r'.nextConn = r.nextConn ∨ ∃ fd ℓ nonBlocking, l = .accept fd ℓ nonBlocking ∧
      r.isOpen fd = false ∧ r' = r.acceptConn fd ℓ nonBlocking := by
  have call (s : Reactor) {t : Reactor} {d : ConnId} {a : Arrival} {handler : Conn → Conn}
      (called : s.call d a handler = some t) : t.nextConn = s.nextConn := by
    obtain ⟨_, _, rfl⟩ := Option.map_eq_some_iff.mp called
    rfl
  have releases (s : Reactor) (ds : List ConnId) : (ds.foldl release s).nextConn = s.nextConn := by
    induction ds generalizing s with
    | nil => rfl
    | cons d ds ih => exact (ih (s.release d)).trans (release_nextConn s d)
  cases step_steps taken with
  | accept fd ℓ nonBlocking _ closed => exact .inr ⟨fd, ℓ, nonBlocking, rfl, closed, rfl⟩
  | accepted d _ => exact .inl (release_nextConn { r with req_info := none } d)
  | poll ℓ events woken _ _ => exact .inl (reports_nextConn ℓ r events)
  | handle ℓ a d ret r₁ _ called =>
    exact .inl ((release_nextConn r₁ d).trans (call (r.setPoint ℓ (.handling ret)) called))
  | startFunctors ℓ _ => exact .inl rfl
  | runFunctor ℓ a done d rest r₁ _ called =>
    exact .inl (call (r.setPoint ℓ (.functors (done ++ [d]) rest)) called)
  | endFunctors ℓ done _ => exact .inl (releases _ done)
  | drop ℓ a node _ _ _ => exact .inl rfl
  | close ℓ a node d r₁ _ _ _ called =>
    exact .inl ((release_nextConn r₁ d).trans (call (r.pop ℓ node.id) called))
  | endExpire ℓ now _ => exact .inl rfl

theorem nextConn_le {w : ConnId → World} {l : Label} (taken : step w r l = some r') :
    r.nextConn ≤ r'.nextConn := by
  rcases step_nextConn taken with same | ⟨fd, ℓ, nonBlocking, _, _, rfl⟩
  · exact Nat.le_of_eq same.symm
  · exact acceptConn_nextConn r fd ℓ nonBlocking

/-- A handler is one of a live connection. -/
theorem subject_alive {w : ConnId → World} {l : Label} (taken : step w r l = some r')
    (own : r.subject l = some c) : ∃ cl, r.conns c = some cl := by
  have call (s : Reactor) {t : Reactor} {d : ConnId} {a : Arrival} {handler : Conn → Conn}
      (called : s.call d a handler = some t) : ∃ dl, s.conns d = some dl := by
    obtain ⟨dl, alive, _⟩ := Option.map_eq_some_iff.mp called
    exact ⟨dl, alive⟩
  cases step_steps taken with
  | handle ℓ a d ret r₁ point called =>
    obtain rfl : d = c := by simpa [subject, point, LoopPoint.ret] using own
    exact call (r.setPoint ℓ (.handling ret)) called
  | runFunctor ℓ a done d rest r₁ point called =>
    obtain rfl : d = c := by simpa [subject, point, LoopPoint.waiting] using own
    exact call (r.setPoint ℓ (.functors (done ++ [d]) rest)) called
  | drop ℓ a node _ found idle => simp [subject, found, idle] at own
  | close ℓ a node d r₁ _ found refers called =>
    obtain rfl : d = c := by simpa [subject, found, refers] using own
    exact call (r.pop ℓ node.id) called
  | _ => cases own

/-- Nothing is brought to a connection that is not there. -/
theorem encounters_unborn {w : ConnId → World} {l : Label} (taken : step w r l = some r')
    (unborn : r.conns c = none) : encounters c r l = [] := by
  have idle : r.subject l ≠ some c := by
    intro own
    obtain ⟨cl, alive⟩ := subject_alive taken own
    cases unborn.symm.trans alive
  unfold encounters
  cases l with
  | poll ℓ events woken => simp [unborn]
  | handle ℓ a => exact if_neg idle
  | runFunctor ℓ a => exact if_neg idle
  | expire ℓ id a => exact if_neg idle
  | _ => rfl

/-- A new connection is as it is on its own: its descriptor was closed, so no table, no timer and
no registration knows it. -/
theorem born_mirrors {w : ConnId → World} {l : Label} (sound : r.Sound) (owned : r.Owned)
    (taken : step w r l = some r') (unborn : r.conns c = none) {cl' : Client}
    (alive' : r'.conns c = some cl') : c = r.nextConn ∧ Mirrors r' cl' .alone := by
  have idle : r.subject l ≠ some c := by
    intro own
    obtain ⟨cl, alive⟩ := subject_alive taken own
    cases unborn.symm.trans alive
  have made : c = r.nextConn := by
    rcases LeftAlone.step taken idle with left | ⟨made, _⟩
    · obtain ⟨cl, _, alive, _⟩ := left cl' alive'
      cases unborn.symm.trans alive
    · exact made
  refine ⟨made, ?_⟩
  rcases step_nextConn taken with same | ⟨fd, ℓ, nonBlocking, _, closed, rfl⟩
  · have named := (sound.step r l r' taken).named c cl' alive'
    rw [same, made] at named
    exact absurd named.2.2 (Nat.lt_irrefl _)
  rcases acceptConn_conns r ℓ fd nonBlocking with kept | new
  · rw [kept] at alive'
    cases unborn.symm.trans alive'
  rw [new, made, update_self] at alive'
  cases alive'
  -- An entry, a registration or a node would be that of a live connection.
  have free {d : ConnId} {dl : Client} (alive : r.conns d = some dl) : dl.http.fd_ ≠ fd := by
    intro same
    have opened := sound.opened d dl alive
    rw [same, closed] at opened
    cases opened
  have unlisted : (r.loops ℓ).epoll.fd2http_ fd = none := by
    cases entry : (r.loops ℓ).epoll.fd2http_ fd with
    | none => rfl
    | some d =>
      obtain ⟨dl, alive, _, same⟩ := sound.http ℓ fd d entry
      exact absurd same (free alive)
  have unheard : (r.loops ℓ).epoll.fd2chan_ fd = none := by
    cases entry : (r.loops ℓ).epoll.fd2chan_ fd with
    | none => rfl
    | some d => cases unlisted.symm.trans (sound.chan ℓ fd d entry)
  have unregistered : (r.loops ℓ).epoll.interest fd = none := by
    by_contra registered
    obtain ⟨d, dl, alive, _, same⟩ := owned ℓ fd registered
    exact free alive same
  have unwatched : (r.loops ℓ).epoll.timerManager_.deadlines r.nextConn = [] := by
    refine TimerManager.Detached.deadlines fun node queued refers => ?_
    obtain ⟨dl, alive, _⟩ := sound.timers ℓ node queued _ refers
    exact absurd (sound.named _ dl alive).2.2 (Nat.lt_irrefl _)
  refine ⟨⟨.of_http (q := ⟨0, 0, 0, none, .new⟩) rfl rfl, rfl, iff_of_false ?_ ?_,
    iff_of_false ?_ ?_, ?_, ?_⟩, alone_inOrder⟩
  · exact nofun
  · unfold Conn.listed view
    rw [acceptConn_epoll]
    exact fun entry => nomatch unlisted.symm.trans entry
  · exact nofun
  · unfold Conn.heard view
    rw [acceptConn_epoll]
    exact fun entry => nomatch unheard.symm.trans entry
  · unfold Conn.registration view
    rw [acceptConn_epoll]
    exact unregistered.symm
  · unfold Conn.deadlines view
    rw [acceptConn_epoll]
    exact unwatched.symm

/-! ### Runs -/

/-- What a run brings to the connection. -/
def history (w : ConnId → World) (c : ConnId) (ls : List Label) : List Encounter :=
  (machine w).output (encounters c) new ls

theorem history_concat {w : ConnId → World} {ls : List Label} {l : Label}
    (run : (machine w).exec new ls = some r) (taken : step w r l = some r') (c : ConnId) :
    history w c (ls ++ [l]) = history w c ls ++ encounters c r l := by
  unfold history
  rw [Machine.output_append _ run, Machine.output_cons _ taken]
  exact congrArg _ (List.append_nil _)

theorem exec_owned {w : ConnId → World} {ls : List Label}
    (run : (machine w).exec new ls = some r) : r.Sound ∧ r.Timed ∧ r.Owned :=
  Machine.invariant_exec (M := machine w) (I := fun r => r.Sound ∧ r.Timed ∧ r.Owned)
    (fun r l r' inv taken => ⟨inv.1.step r l r' taken, inv.2.1.step inv.1 taken,
      inv.2.2.step inv.1 taken⟩) ⟨sound_new, timed_new, owned_new⟩ run

/-- In a run from the start each connection becomes what its encounters make of it. -/
theorem exec_mirrors {w : ConnId → World} {ls : List Label} {r : Reactor}
    (run : (machine w).exec new ls = some r) (c : ConnId) :
    (r.nextConn ≤ c → history w c ls = []) ∧ ∀ cl, r.conns c = some cl →
      Mirrors r cl ((history w c ls).foldl (Conn.encounter (w c)) .alone) := by
  induction ls using List.reverseRecOn generalizing r with
  | nil =>
    cases run
    exact ⟨fun _ => rfl, fun _ alive => by cases alive⟩
  | append_singleton ls l ih =>
    obtain ⟨r₁, front, taken⟩ := Machine.exec_concat run
    obtain ⟨unborn, mirrors⟩ := ih front
    obtain ⟨sound, timed, owned⟩ := exec_owned front
    rw [history_concat front taken]
    cases alive : r₁.conns c with
    | none =>
      rw [encounters_unborn taken alive, List.append_nil]
      refine ⟨fun beyond => unborn ((nextConn_le taken).trans beyond), fun cl alive' => ?_⟩
      obtain ⟨made, born⟩ := born_mirrors sound owned taken alive alive'
      rw [unborn (Nat.le_of_eq made.symm)]
      exact born
    | some cl =>
      have before := (sound.named c cl alive).2.2
      refine ⟨fun beyond => ?_, fun cl' alive' => ?_⟩
      · exact absurd (Nat.lt_of_lt_of_le before (nextConn_le taken)) (Nat.not_lt.mpr beyond)
      · rw [List.foldl_append]
        exact step_mirrors sound timed taken alive (mirrors cl alive) alive'

/-- The run of `answered`, in another loop and beside a connection that times out. -/
def crowded : List Label := entering 7 1 ++ entering 5 2 ++ [.expire 1 0 (quietAt 3),
  .endExpire 2 ⟨0, 0⟩, .poll 2 [(5, ⟨true, false, false, false⟩)] false,
  .handle 2 (bringing (bytes "GET /hello HTTP/1.1\r\nConnection: keep-alive\r\n\r\n")),
  .startFunctors 2, .endFunctors 2]

end Reactor
end LightAgent

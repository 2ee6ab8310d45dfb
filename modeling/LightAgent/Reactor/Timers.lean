import LightAgent.Reactor.Descriptors
import LightAgent.TimerLinks

/-!
# Timeouts of the connections

`Timed` couples the timer queue of each loop with the `timer_` links of the connections
of that loop. Superseded nodes stay in the queue, but they refer to nothing.
-/
namespace LightAgent

open Library Function

namespace Reactor

/-- The `timer_` links of the connections of a loop. -/
def links (r : Reactor) (ℓ : LoopId) (c : ConnId) : Option TimerId :=
  match r.conns c with
  | some cl => if cl.http.loop_ = ℓ then cl.http.timer_ else none
  | none => none

/-- A functor that has not run is one of a connection without a timer. -/
structure Timed (r : Reactor) : Prop where
  linked : ∀ ℓ, Linked (r.loops ℓ).epoll.timerManager_ (r.links ℓ)
  fresh : ∀ ℓ, ∀ c ∈ (r.loops ℓ).point.waiting ++ (r.loops ℓ).pendingFunctors_,
    r.links ℓ c = none

theorem timed_new : new.Timed where
  linked _ := linked_new
  fresh _ _ waits := by cases waits

/-- `links` as a connection of the loop has it. -/
theorem links_own {r : Reactor} {c : ConnId} {cl : Client} (alive : r.conns c = some cl) :
    r.links cl.http.loop_ c = cl.http.timer_ := by
  unfold links
  rw [alive]
  exact if_pos rfl

/-- A link is that of a live connection of the loop. -/
theorem links_some {r : Reactor} {ℓ : LoopId} {c : ConnId} {id : TimerId}
    (links : r.links ℓ c = some id) :
    ∃ cl, r.conns c = some cl ∧ cl.http.loop_ = ℓ ∧ cl.http.timer_ = some id := by
  unfold Reactor.links at links
  split at links
  next cl alive =>
    split at links
    next loop => exact ⟨cl, alive, loop, links⟩
    next => cases links
  next => cases links

namespace Timed

variable {r : Reactor} {c : ConnId} {cl : Client} {a : Arrival} {s : Conn}

/-- A handler finds the timers of its loop in order. -/
theorem conn (timed : r.Timed) (sound : r.Sound) (alive : r.conns c = some cl) (a : Arrival) :
    (cl.conn a (r.loops cl.http.loop_).epoll).Timed (r.links cl.http.loop_) := by
  have name : cl.http.this = c := (sound.named c cl alive).1
  have own : (cl.conn a (r.loops cl.http.loop_).epoll).http.timer_ =
      r.links cl.http.loop_ (cl.conn a (r.loops cl.http.loop_).epoll).http.this :=
    (links_own alive).symm.trans (congrArg (r.links cl.http.loop_) name.symm)
  unfold Conn.Timed
  rw [own, update_eq_self]
  exact timed.linked cl.http.loop_

/-- What a handler leaves behind, of a connection that is not waiting to enter its loop. -/
theorem store (timed : r.Timed) (sound : r.Sound) (alive : r.conns c = some cl)
    (effect : TableEffect (cl.conn a (r.loops cl.http.loop_).epoll) s)
    (kept : (cl.conn a (r.loops cl.http.loop_).epoll).Timed (r.links cl.http.loop_) →
      s.Timed (r.links cl.http.loop_))
    (idle : c ∉ (r.loops cl.http.loop_).point.waiting ++ (r.loops cl.http.loop_).pendingFunctors_) :
    (r.store c s).Timed := by
  have this : s.http.this = c := effect.this.trans (sound.named c cl alive).1
  have loop_ : s.http.loop_ = cl.http.loop_ := effect.loop_
  have links (ℓ : LoopId) : (r.store c s).links ℓ =
      if ℓ = cl.http.loop_ then update (r.links cl.http.loop_) c s.http.timer_ else r.links ℓ := by
    funext d
    unfold Reactor.links Reactor.store
    by_cases same : d = c
    · subst same
      by_cases here : ℓ = cl.http.loop_
      · subst here; simp [loop_]
      · simp [here, loop_, alive, Ne.symm here]
    · by_cases here : ℓ = cl.http.loop_
      · subst here; simp [same]
      · simp [here, same]
  have point (ℓ) : ((r.store c s).loops ℓ).point = (r.loops ℓ).point := setEpoll_point r _ _ ℓ
  have pending (ℓ) : ((r.store c s).loops ℓ).pendingFunctors_ = (r.loops ℓ).pendingFunctors_ :=
    setEpoll_pending r _ _ ℓ
  -- Only the link of this connection in its own loop may change.
  constructor
  case linked =>
    intro ℓ
    rw [links]
    split
    next here =>
      subst here
      have settled := kept (timed.conn sound alive a)
      unfold Conn.Timed at settled
      rw [this] at settled
      rw [← loop_, store_epoll, loop_]
      exact settled
    next other =>
      rw [store_of_ne r c (loop_ ▸ other)]
      exact timed.linked ℓ
  case fresh =>
    intro ℓ d waits
    rw [point, pending] at waits
    rw [links]
    split
    next here =>
      subst here
      have other : d ≠ c := fun same => idle (same ▸ waits)
      rw [update_of_ne other]
      exact timed.fresh _ d waits
    next => exact timed.fresh ℓ d waits

/-- The node that is found by its name is the only one of that name. -/
theorem only (timed : r.Timed) {ℓ : LoopId} {node other : TimerNode}
    (found : (r.loops ℓ).epoll.timerManager_.timerNodeQueue.find? (·.id = node.id) = some node)
    (queued : other ∈ (r.loops ℓ).epoll.timerManager_.timerNodeQueue) (same : other.id = node.id) :
    other = node :=
  List.inj_on_of_nodup_map (timed.linked ℓ).ids queued (List.mem_of_find?_eq_some found) same

/-- A connection with a timer is not waiting to enter its loop. -/
theorem settled (timed : r.Timed) {ℓ : LoopId} {node : TimerNode}
    (queued : node ∈ (r.loops ℓ).epoll.timerManager_.timerNodeQueue)
    (refers : node.SPHttpData = some c) :
    c ∉ (r.loops ℓ).point.waiting ++ (r.loops ℓ).pendingFunctors_ := by
  intro waits
  cases (timed.fresh ℓ c waits).symm.trans ((timed.linked ℓ).refers node queued c refers).2.1

/-- `Timed` reads the queues of nodes and functors and the links. -/
theorem congr {r' : Reactor} (timed : r.Timed) (links : ∀ ℓ, r'.links ℓ = r.links ℓ)
    (timers : ∀ ℓ, (r'.loops ℓ).epoll.timerManager_ = (r.loops ℓ).epoll.timerManager_)
    (waiting : ∀ ℓ, (r'.loops ℓ).point.waiting ++ (r'.loops ℓ).pendingFunctors_ ⊆
      (r.loops ℓ).point.waiting ++ (r.loops ℓ).pendingFunctors_) : r'.Timed where
  linked ℓ := by rw [timers, links]; exact timed.linked ℓ
  fresh ℓ c waits := by rw [links]; exact timed.fresh ℓ c (waiting ℓ waits)

/-- A loop goes on to another point. -/
theorem setPoint (timed : r.Timed) {ℓ : LoopId} {point : LoopPoint}
    (waiting : point.waiting ⊆ (r.loops ℓ).point.waiting) : (r.setPoint ℓ point).Timed := by
  exact timed.congr (fun _ => rfl) (fun ℓ' => by rw [setPoint_epoll]) (setPoint_waits r ℓ waiting)

theorem release (timed : r.Timed) (c : ConnId) : (r.release c).Timed := by
  have loops := release_loop r c
  have waits {ℓ : LoopId} {d : ConnId} (member : d ∈ ((r.release c).loops ℓ).point.waiting ++
      ((r.release c).loops ℓ).pendingFunctors_) :
      d ∈ (r.loops ℓ).point.waiting ++ (r.loops ℓ).pendingFunctors_ := by
    rw [(loops ℓ).pendingFunctors_, (loops ℓ).point] at member
    exact member
  cases alive : r.conns c with
  | none =>
    have stays : r.release c = r := by unfold Reactor.release; rw [alive]
    rw [stays]
    exact timed
  | some cl =>
    by_cases held : r.held c cl.http
    · have stays : r.release c = r := by
        unfold Reactor.release; rw [alive]; exact if_pos held
      rw [stays]
      exact timed
    · have gone : (r.release c).conns = update r.conns c none := by
        unfold Reactor.release; rw [alive]; dsimp only; rw [if_neg held]
      have links (ℓ) : (r.release c).links ℓ = update (r.links ℓ) c none := by
        funext d
        unfold Reactor.links
        rw [gone]
        by_cases same : d = c
        · subst same; simp
        · simp [same]
      constructor
      case linked =>
        intro ℓ
        rw [links, (loops ℓ).timerManager_]
        refine (timed.linked ℓ).unlink fun node queued refers => ?_
        obtain ⟨cl', alive', loop, _⟩ := links_some ((timed.linked ℓ).refers node queued c refers).2.1
        cases alive.symm.trans alive'
        subst loop
        exact held (.inr (.inl ⟨node, queued, refers⟩))
      case fresh =>
        intro ℓ d member
        rw [links]
        by_cases same : d = c
        · rw [same, update_self]
        · rw [update_of_ne same]
          exact timed.fresh ℓ d (waits member)

theorem releases (timed : r.Timed) (cs : List ConnId) : (cs.foldl Reactor.release r).Timed := by
  induction cs generalizing r with
  | nil => exact timed
  | cons c cs ih => exact ih (timed.release c)

/-- Handing out one event. -/
theorem report (timed : r.Timed) (ℓ : LoopId) (e : Fd × Ready) : (Reactor.report ℓ r e).Timed := by
  have same (ℓ' : LoopId) := report_loop r ℓ e ℓ'
  refine timed.congr (fun ℓ' => ?_) (fun ℓ' => (same ℓ').timerManager_) fun ℓ' => ?_
  · funext d
    unfold links
    by_cases listed : (r.loops ℓ).epoll.fd2chan_ e.1 = some d
    · rw [report_conns, if_pos listed]
      cases r.conns d with
      | none => rfl
      | some cl => rfl
    · rw [report_conns, if_neg listed]
  · rw [(same ℓ').pendingFunctors_, (same ℓ').point]
    exact List.Subset.refl _

theorem poll (timed : r.Timed) (ℓ : LoopId) (events : List (Fd × Ready)) (woken : Bool) :
    (r.pollEvents ℓ events woken).Timed := by
  have reported : (events.foldl (Reactor.report ℓ) r).Timed := by
    clear woken
    induction events generalizing r with
    | nil => exact timed
    | cons e events ih => exact ih (timed.report ℓ e)
  unfold pollEvents
  dsimp only
  split
  · exact reported.setPoint (List.nil_subset _)
  · exact reported.setPoint (List.nil_subset _)

theorem pop (timed : r.Timed) (ℓ : LoopId) (id : TimerId) : (r.pop ℓ id).Timed := by
  constructor
  case linked =>
    intro ℓ'
    by_cases same : ℓ' = ℓ
    · subst same
      have queue := (timed.linked ℓ').pop id
      rw [Reactor.pop, setEpoll_epoll]
      exact queue
    · rw [Reactor.pop, setEpoll_of_ne r ℓ same]
      exact timed.linked ℓ'
  case fresh =>
    intro ℓ' d waits
    rw [Reactor.pop, setEpoll_pending, setEpoll_point] at waits
    exact timed.fresh ℓ' d waits

/-- A new connection has no timer. -/
theorem accept (timed : r.Timed) (sound : r.Sound) (fd : Fd) (ℓ : LoopId) (nonBlocking : Bool) :
    (r.acceptConn fd ℓ nonBlocking).Timed := by
  -- The name was in no use, so the new connection hides no link.
  have unborn : r.conns r.nextConn = none := by
    cases alive : r.conns r.nextConn with
    | none => rfl
    | some cl => exact absurd (sound.named _ cl alive).2.2 (Nat.lt_irrefl _)
  have links (ℓ' : LoopId) : (r.acceptConn fd ℓ nonBlocking).links ℓ' = r.links ℓ' := by
    funext d
    unfold Reactor.links
    rcases acceptConn_conns r ℓ fd nonBlocking with same | new
    · rw [same]
    · rw [new]
      by_cases same : d = r.nextConn
      · subst same; simp [unborn, HttpData.new]
      · rw [update_of_ne same]
  constructor
  case linked =>
    intro ℓ'
    rw [links, acceptConn_epoll]
    exact timed.linked ℓ'
  case fresh =>
    intro ℓ' d waits
    rw [links]
    rcases acceptConn_waits r ℓ fd nonBlocking waits with old | rfl
    · exact timed.fresh ℓ' d old
    · unfold Reactor.links
      rw [unborn]

theorem swap (timed : r.Timed) {ℓ : LoopId} (point : (r.loops ℓ).point = .handling []) :
    (r.swapFunctors ℓ).Timed := by
  refine timed.congr (fun _ => rfl) (fun ℓ' => by rw [swapFunctors_epoll]) fun ℓ' => ?_
  by_cases same : ℓ' = ℓ
  · subst same
    simp [swapFunctors, LoopPoint.waiting]
  · simp [swapFunctors, same]

/-! ### A step -/

theorem step {w : ConnId → World} {r' : Reactor} {l : Label} (timed : r.Timed) (sound : r.Sound)
    (taken : Reactor.step w r l = some r') : r'.Timed := by
  cases step_steps taken with
  | accept fd ℓ nonBlocking _ _ => exact timed.accept sound fd ℓ nonBlocking
  | accepted c _ =>
    have local_ : Timed { r with req_info := none } := ⟨timed.linked, timed.fresh⟩
    exact local_.release c
  | poll ℓ events woken _ _ => exact timed.poll ℓ events woken
  | handle ℓ a c ret r₁ point called =>
    obtain ⟨cl, alive, rfl, _, _, _, settled, rfl⟩ := sound.handle_inv point called
    obtain ⟨this, holder, _⟩ := sound.named c cl alive
    refine ((timed.setPoint (List.nil_subset _)).store (a := a) (sound.nextHandler point) alive ?_
      (fun found => ?_) (settled _)).release c
    · rw [setPoint_epoll]
      exact handleEvents_effect (w c) _
    · rw [setPoint_epoll] at found
      exact handleEvents_timed (w c) found (holder.trans (congrArg some this.symm))
  | startFunctors ℓ point => exact timed.swap point
  | runFunctor ℓ a done c rest r₁ point called =>
    obtain ⟨cl, alive, rfl, waits, _, settled, rfl⟩ := sound.functor_inv point called
    obtain ⟨this, holder, _⟩ := sound.named c cl alive
    refine (timed.setPoint ?_).store (a := a) (sound.nextFunctor point) alive ?_
      (fun found => ?_) (settled _)
    · rw [point]
      exact List.subset_cons_self c rest
    · rw [setPoint_epoll]
      exact newEvent_effect _
    · rw [setPoint_epoll] at found
      -- `newEvent` sets the first timer of the connection.
      refine (newEvent_timed found ?_ (holder.trans (congrArg some this.symm))).1
      exact (links_own alive).symm.trans (timed.fresh _ c waits)
  | endFunctors ℓ done point => exact (timed.setPoint (List.nil_subset _)).releases done
  | drop ℓ a node _ _ _ => exact timed.pop ℓ node.id
  | close ℓ a node c r₁ point found refers called =>
    obtain ⟨cl, alive, rfl, _, rfl⟩ := sound.close_inv point found refers called
    have queued := List.mem_of_find?_eq_some found
    have closed (s : Conn) := handleClose_closed s
    refine ((timed.pop _ node.id).store (sound.pop _ node.id) alive (closed _).effect
      (fun found => found.same (closed _).timers (closed _).effect.this) fun waits => ?_).release c
    rw [Reactor.pop, setEpoll_pending, setEpoll_point] at waits
    -- The node refers to the connection, so it is not waiting to enter the loop.
    exact timed.settled queued refers waits
  | endExpire ℓ now _ => exact timed.setPoint (List.nil_subset _)

end Timed

theorem reachable_timed {w : ConnId → World} {r : Reactor} (reached : (machine w).Reachable r) :
    r.Timed := by
  refine (Machine.invariant (I := fun r => r.Sound ∧ r.Timed) ?_ ?_ reached).2
  · intro r start
    rw [start]
    exact ⟨sound_new, timed_new⟩
  · intro r l r' inv taken
    exact ⟨inv.1.step r l r' taken, inv.2.step inv.1 taken⟩

/-! ### No stale timer -/

/-- At most one queued node refers to a connection, and the connection links to it. -/
structure NoStaleTimer (r : Reactor) : Prop where
  one : ∀ ℓ ℓ' c, ∀ m ∈ (r.loops ℓ).epoll.timerManager_.timerNodeQueue,
    ∀ n ∈ (r.loops ℓ').epoll.timerManager_.timerNodeQueue,
    m.SPHttpData = some c → n.SPHttpData = some c → ℓ = ℓ' ∧ m = n
  linked : ∀ ℓ c, ∀ node ∈ (r.loops ℓ).epoll.timerManager_.timerNodeQueue,
    node.SPHttpData = some c → ∃ cl, r.conns c = some cl ∧ cl.http.loop_ = ℓ ∧
      cl.http.timer_ = some node.id

theorem Timed.noStaleTimer {r : Reactor} (timed : r.Timed) : r.NoStaleTimer := by
  have linked (ℓ : LoopId) (c : ConnId) (node : TimerNode)
      (queued : node ∈ (r.loops ℓ).epoll.timerManager_.timerNodeQueue)
      (refers : node.SPHttpData = some c) :=
    links_some ((timed.linked ℓ).refers node queued c refers).2.1
  constructor
  case one =>
    intro ℓ ℓ' c m queued n queued' refers refers'
    obtain ⟨cl, alive, loop, _⟩ := linked ℓ c m queued refers
    obtain ⟨cl', alive', loop', _⟩ := linked ℓ' c n queued' refers'
    cases alive.symm.trans alive'
    have same : ℓ = ℓ' := loop.symm.trans loop'
    subst same
    exact ⟨rfl, (timed.linked ℓ).unique queued queued' refers refers'⟩
  case linked => exact linked

/-- The timeout of a connection that was set last. -/
def latestTimeout (r : Reactor) (ℓ : LoopId) (c : ConnId) : Option TimerId :=
  ((r.loops ℓ).epoll.timerManager_.history.find? (·.1 = c)).map (·.2)

/-- In every interleaving no stale timer refers to a connection, and `handleExpiredEvent`
closes one because of the timeout that was set last, at the time it was set for. -/
theorem no_stale_timer {w : ConnId → World} {r : Reactor} (reached : (machine w).Reachable r) :
    r.NoStaleTimer ∧ ∀ ℓ id a r', step w r (.expire ℓ id a) = some r' →
      ∀ c, r.subject (.expire ℓ id a) = some c → r.latestTimeout ℓ c = some id ∧
        ∃ node ∈ (r.loops ℓ).epoll.timerManager_.timerNodeQueue,
          node.id = id ∧ node.SPHttpData = some c ∧ node.expiredTime_ ≤ a.now.msec := by
  have timed := reachable_timed reached
  refine ⟨timed.noStaleTimer, fun ℓ id a r' taken c closes => ?_⟩
  obtain ⟨node, found, refers⟩ := Option.bind_eq_some_iff.mp closes
  have name : node.id = id := by simpa using List.find?_some found
  have queued := List.mem_of_find?_eq_some found
  obtain ⟨alive, _, latest⟩ := (timed.linked ℓ).refers node queued c refers
  refine ⟨?_, node, queued, name, refers, ?_⟩
  · unfold latestTimeout
    rw [latest, ← name]
    rfl
  · simp only [step, found] at taken
    split at taken
    next =>
      split at taken
      next due =>
        rw [alive] at due
        exact due.2.resolve_left Bool.false_ne_true
      next => cases taken
    next => cases taken

/-- A handler that meets these bytes and a socket with room for the answer. -/
def bringing (chunk : Bytes) : Arrival := ⟨[.data (chunk.headD 0) chunk.tail], [], ⟨0, 0⟩, true⟩

/-- A connection that is answered once, and the loop back at its timers. -/
def answered : List Label := entering 5 1 ++ [.endExpire 1 ⟨0, 0⟩,
  .poll 1 [(5, ⟨true, false, false, false⟩)] false,
  .handle 1 (bringing (bytes "GET /hello HTTP/1.1\r\nConnection: keep-alive\r\n\r\n")),
  .startFunctors 1, .endFunctors 1]

theorem no_stale_timer_answered : ∃ r,
    (machine fun _ => World.bare).exec new answered = some r ∧
      ((r.loops 1).epoll.timerManager_.timerNodeQueue.map fun node => (node.id, node.SPHttpData)) =
        [(0, none), (1, some 0)] ∧
      r.NoStaleTimer ∧ ∀ ℓ id a r', step (fun _ => World.bare) r (.expire ℓ id a) = some r' →
        ∀ c, r.subject (.expire ℓ id a) = some c → r.latestTimeout ℓ c = some id ∧
          ∃ node ∈ (r.loops ℓ).epoll.timerManager_.timerNodeQueue,
            node.id = id ∧ node.SPHttpData = some c ∧ node.expiredTime_ ≤ a.now.msec := by
  obtain ⟨r, run, queue⟩ := Machine.exec_any (M := machine fun _ => World.bare)
    (fun r => ((r.loops 1).epoll.timerManager_.timerNodeQueue.map fun node =>
      (node.id, node.SPHttpData)) = [(0, none), (1, some 0)]) new answered (by decide +kernel)
  have allowed : (machine fun _ => World.bare).Along (fun _ _ _ => True) new answered := by
    decide +kernel
  exact ⟨r, run, queue, no_stale_timer (Machine.reachable_exec (.init rfl) allowed run)⟩

end Reactor
end LightAgent

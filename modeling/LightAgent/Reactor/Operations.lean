import LightAgent.Reactor

/-!
# The operations of the reactor

What each operation leaves of the loops, and what a step is made of.
-/
namespace LightAgent

open Library Function

namespace Reactor

/-! ### The loops after an operation -/

/-- The same tables, timers, queue and point; the registrations may be others. -/
structure LoopFrame (loop loop' : Loop) : Prop where
  fd2http_ : loop'.epoll.fd2http_ = loop.epoll.fd2http_
  fd2chan_ : loop'.epoll.fd2chan_ = loop.epoll.fd2chan_
  timerManager_ : loop'.epoll.timerManager_ = loop.epoll.timerManager_
  pendingFunctors_ : loop'.pendingFunctors_ = loop.pendingFunctors_
  point : loop'.point = loop.point

theorem LoopFrame.refl (loop : Loop) : LoopFrame loop loop := ⟨rfl, rfl, rfl, rfl, rfl⟩

theorem LoopFrame.trans {l₁ l₂ l₃ : Loop} (first : LoopFrame l₁ l₂) (second : LoopFrame l₂ l₃) :
    LoopFrame l₁ l₃ where
  fd2http_ := second.fd2http_.trans first.fd2http_
  fd2chan_ := second.fd2chan_.trans first.fd2chan_
  timerManager_ := second.timerManager_.trans first.timerManager_
  pendingFunctors_ := second.pendingFunctors_.trans first.pendingFunctors_
  point := second.point.trans first.point

theorem LoopFrame.foldl {α : Type*} {f : Reactor → α → Reactor} {ℓ : LoopId}
    (frame : ∀ r a, LoopFrame (r.loops ℓ) ((f r a).loops ℓ)) (r : Reactor) (as : List α) :
    LoopFrame (r.loops ℓ) ((as.foldl f r).loops ℓ) := by
  induction as generalizing r with
  | nil => exact .refl _
  | cons a as ih => exact (frame r a).trans (ih (f r a))

section Operations

variable (r : Reactor) (ℓ : LoopId)

@[simp] theorem setEpoll_epoll (epoll : Epoll) : ((r.setEpoll ℓ epoll).loops ℓ).epoll = epoll := by
  simp [setEpoll]

theorem setEpoll_of_ne {ℓ' : LoopId} (other : ℓ' ≠ ℓ) (epoll : Epoll) :
    (r.setEpoll ℓ epoll).loops ℓ' = r.loops ℓ' := by
  simp [setEpoll, other]

@[simp] theorem setEpoll_point (epoll : Epoll) (ℓ' : LoopId) :
    ((r.setEpoll ℓ epoll).loops ℓ').point = (r.loops ℓ').point := by
  by_cases same : ℓ' = ℓ
  · subst same; simp [setEpoll]
  · rw [setEpoll_of_ne r ℓ same]

@[simp] theorem setEpoll_pending (epoll : Epoll) (ℓ' : LoopId) :
    ((r.setEpoll ℓ epoll).loops ℓ').pendingFunctors_ = (r.loops ℓ').pendingFunctors_ := by
  by_cases same : ℓ' = ℓ
  · subst same; simp [setEpoll]
  · rw [setEpoll_of_ne r ℓ same]

@[simp] theorem setPoint_epoll (point : LoopPoint) (ℓ' : LoopId) :
    ((r.setPoint ℓ point).loops ℓ').epoll = (r.loops ℓ').epoll := by
  by_cases same : ℓ' = ℓ
  · subst same; simp [setPoint]
  · simp [setPoint, same]

@[simp] theorem setPoint_pending (point : LoopPoint) (ℓ' : LoopId) :
    ((r.setPoint ℓ point).loops ℓ').pendingFunctors_ = (r.loops ℓ').pendingFunctors_ := by
  by_cases same : ℓ' = ℓ
  · subst same; simp [setPoint]
  · simp [setPoint, same]

@[simp] theorem setPoint_point (point : LoopPoint) : ((r.setPoint ℓ point).loops ℓ).point = point := by
  simp [setPoint]

theorem setPoint_of_ne {ℓ' : LoopId} (other : ℓ' ≠ ℓ) (point : LoopPoint) :
    (r.setPoint ℓ point).loops ℓ' = r.loops ℓ' := by
  simp [setPoint, other]

/-- Nothing new waits for a loop that goes on to a point where no more waits. -/
theorem setPoint_waits {point : LoopPoint} (waiting : point.waiting ⊆ (r.loops ℓ).point.waiting)
    (ℓ' : LoopId) :
    ((r.setPoint ℓ point).loops ℓ').point.waiting ++
        ((r.setPoint ℓ point).loops ℓ').pendingFunctors_ ⊆
      (r.loops ℓ').point.waiting ++ (r.loops ℓ').pendingFunctors_ := by
  rw [setPoint_pending]
  by_cases same : ℓ' = ℓ
  · subst same
    rw [setPoint_point]
    exact List.append_subset.mpr ⟨fun d waits => List.mem_append_left _ (waiting waits),
      List.subset_append_right _ _⟩
  · rw [setPoint_of_ne r ℓ same]
    exact List.Subset.refl _

/-- A registration is nothing to the tables, timers and queues. -/
theorem setInterest_loop (interest : Fd → Option Registration) (ℓ' : LoopId) :
    LoopFrame (r.loops ℓ')
      ((r.setEpoll ℓ { (r.loops ℓ).epoll with interest := interest }).loops ℓ') := by
  by_cases same : ℓ' = ℓ
  · subst same
    constructor
    all_goals simp
  · rw [setEpoll_of_ne r ℓ same]
    exact .refl _

/-- A connection that is there once one is gone is another one. -/
theorem of_update_none {conns : ConnId → Option Client} {c d : ConnId} {cl : Client}
    (alive : update conns c none d = some cl) : d ≠ c ∧ conns d = some cl := by
  by_cases same : d = c
  · rw [same, update_self] at alive
    cases alive
  · rw [update_of_ne same] at alive
    exact ⟨same, alive⟩

theorem of_update_some {conns : ConnId → Option Client} {c d : ConnId} {new cl : Client}
    (alive : update conns c (some new) d = some cl) : d = c ∧ cl = new ∨ d ≠ c ∧ conns d = some cl := by
  by_cases same : d = c
  · rw [same, update_self] at alive
    exact .inl ⟨same, (Option.some.inj alive).symm⟩
  · rw [update_of_ne same] at alive
    exact .inr ⟨same, alive⟩

theorem store_epoll (c : ConnId) (s : Conn) :
    ((r.store c s).loops s.http.loop_).epoll = s.epoll := by
  simp [store]

theorem store_of_ne (c : ConnId) {s : Conn} {ℓ' : LoopId} (other : ℓ' ≠ s.http.loop_) :
    (r.store c s).loops ℓ' = r.loops ℓ' :=
  setEpoll_of_ne r _ other _

/-- An event uses up its registration, and changes nothing else of the loops. -/
theorem report_loops (e : Fd × Ready) :
    (report ℓ r e).loops = (r.setEpoll ℓ { (r.loops ℓ).epoll with
      interest := update (r.loops ℓ).epoll.interest e.1
        (((r.loops ℓ).epoll.interest e.1).map Registration.fire) }).loops := by
  unfold report
  dsimp only
  split <;> rfl

/-- `getEventsRequest` changes neither tables nor timers nor queues. -/
theorem report_loop (e : Fd × Ready) (ℓ' : LoopId) :
    LoopFrame (r.loops ℓ') ((report ℓ r e).loops ℓ') := by
  rw [report_loops]
  exact setInterest_loop r ℓ _ ℓ'

theorem report_conns (e : Fd × Ready) (c : ConnId) : (report ℓ r e).conns c =
    if (r.loops ℓ).epoll.fd2chan_ e.1 = some c then (r.conns c).map (·.handOut e.2)
    else r.conns c := by
  unfold report
  dsimp only
  cases (r.loops ℓ).epoll.fd2chan_ e.1 with
  | none => simp [setEpoll]
  | some d =>
    by_cases same : d = c
    · subst same; simp [setEpoll]
    · have other : some d ≠ some c := fun eq => same (Option.some.inj eq)
      simp [setEpoll, same, Ne.symm same]

/-- An event changes of a connection what the channel has received. -/
theorem report_some {e : Fd × Ready} {c : ConnId} {cl : Client}
    (alive : (report ℓ r e).conns c = some cl) :
    ∃ old, r.conns c = some old ∧ (cl = old ∨ cl = old.handOut e.2) := by
  rw [report_conns] at alive
  split at alive
  · obtain ⟨old, alive', rfl⟩ := Option.map_eq_some_iff.mp alive
    exact ⟨old, alive', .inr rfl⟩
  · exact ⟨cl, alive, .inl rfl⟩

theorem report_interest (e : Fd × Ready) (ℓ' : LoopId) (fd : Fd) :
    ((report ℓ r e).loops ℓ').epoll.interest fd =
      if ℓ' = ℓ ∧ fd = e.1 then ((r.loops ℓ').epoll.interest fd).map Registration.fire
      else (r.loops ℓ').epoll.interest fd := by
  rw [report_loops]
  by_cases here : ℓ' = ℓ
  · subst here
    rw [setEpoll_epoll]
    by_cases same : fd = e.1
    · subst same; simp
    · simp [same]
  · simp [setEpoll_of_ne r ℓ here, here]

theorem queueInLoop_loop (c : ConnId) (ℓ' : LoopId) :
    ((r.queueInLoop ℓ c).loops ℓ').epoll = (r.loops ℓ').epoll ∧
      ((r.queueInLoop ℓ c).loops ℓ').point = (r.loops ℓ').point ∧
      ((r.queueInLoop ℓ c).loops ℓ').pendingFunctors_ =
        (r.loops ℓ').pendingFunctors_ ++ if ℓ' = ℓ then [c] else [] := by
  by_cases same : ℓ' = ℓ
  · subst same; simp [queueInLoop]
  · simp [queueInLoop, same]

theorem swapFunctors_epoll (ℓ' : LoopId) :
    ((r.swapFunctors ℓ).loops ℓ').epoll = (r.loops ℓ').epoll := by
  by_cases same : ℓ' = ℓ
  · subst same; simp [swapFunctors]
  · simp [swapFunctors, same]

@[simp] theorem pop_point (id : TimerId) (ℓ' : LoopId) :
    ((r.pop ℓ id).loops ℓ').point = (r.loops ℓ').point :=
  setEpoll_point r ℓ _ ℓ'

theorem reports_loop (events : List (Fd × Ready)) (ℓ' : LoopId) :
    LoopFrame (r.loops ℓ') ((events.foldl (report ℓ) r).loops ℓ') :=
  .foldl (fun r e => report_loop r ℓ e ℓ') r events

theorem release_loop (c : ConnId) (ℓ' : LoopId) :
    LoopFrame (r.loops ℓ') ((r.release c).loops ℓ') := by
  unfold release
  split
  next => exact .refl _
  next cl _ =>
    dsimp only
    split
    · exact .refl _
    · exact setInterest_loop r cl.http.loop_ _ ℓ'

theorem release_conns (c : ConnId) : r.release c = r ∨ ∃ cl, r.conns c = some cl ∧
    (r.release c).conns = update r.conns c none ∧
    ∀ ℓ' fd, fd ≠ cl.http.fd_ →
      ((r.release c).loops ℓ').epoll.interest fd = (r.loops ℓ').epoll.interest fd := by
  unfold release
  cases alive : r.conns c with
  | none => exact .inl rfl
  | some cl =>
    dsimp only
    split
    · exact .inl rfl
    · refine .inr ⟨cl, rfl, rfl, fun ℓ' fd other => ?_⟩
      -- Only the registration of its own descriptor is forgotten, in its own loop.
      by_cases same : ℓ' = cl.http.loop_
      · subst same
        change ((r.setEpoll _ _).loops _).epoll.interest fd = _
        rw [setEpoll_epoll]
        exact update_of_ne other _ _
      · change ((r.setEpoll _ _).loops _).epoll.interest fd = _
        rw [setEpoll_of_ne r _ same]

/-- A table entry keeps the connection. -/
theorem release_listed {c : ConnId} {cl : Client} (alive : r.conns c = some cl)
    (entry : (r.loops cl.http.loop_).epoll.fd2http_ cl.http.fd_ = some c) : r.release c = r := by
  unfold release
  rw [alive]
  exact if_pos (.inl entry)

theorem releases_loop (cs : List ConnId) (ℓ' : LoopId) :
    LoopFrame (r.loops ℓ') ((cs.foldl release r).loops ℓ') :=
  .foldl (fun r c => release_loop r c ℓ') r cs

/-- Of such a descriptor `handNewConn` makes a connection. -/
def Usable (fd : Fd) (nonBlocking : Bool) : Prop := 0 < fd ∧ fd < MAXFDS ∧ nonBlocking = true

instance (fd : Fd) (nonBlocking : Bool) : Decidable (Usable fd nonBlocking) :=
  inferInstanceAs (Decidable (_ ∧ _))

/-- Any other one is at most left open. -/
theorem acceptConn_unusable {fd : Fd} {nonBlocking : Bool} (unusable : ¬Usable fd nonBlocking) :
    ∃ isOpen, r.acceptConn fd ℓ nonBlocking = { r with isOpen := isOpen } := by
  unfold acceptConn
  by_cases large : fd ≥ MAXFDS
  · exact ⟨r.isOpen, if_pos large⟩
  · have left_ : fd = 0 ∨ nonBlocking = false := by
      by_contra both
      obtain ⟨some, blocking⟩ := not_or.mp both
      exact unusable ⟨Nat.pos_of_ne_zero some, Nat.not_le.mp large, by simpa using blocking⟩
    rw [if_neg large]
    exact ⟨_, if_pos left_⟩

theorem acceptConn_usable {fd : Fd} {nonBlocking : Bool} (usable : Usable fd nonBlocking) :
    r.acceptConn fd ℓ nonBlocking = { r.queueInLoop ℓ r.nextConn with
      isOpen := update r.isOpen fd true
      conns := update r.conns r.nextConn (some ⟨.new r.nextConn ℓ fd, .idle⟩)
      nextConn := r.nextConn + 1
      req_info := some r.nextConn } := by
  obtain ⟨some, small, blocking⟩ := usable
  have goesOn : ¬(fd = 0 ∨ nonBlocking = false) := by
    rintro (zero | fails)
    · exact absurd zero (Nat.ne_of_gt some)
    · cases fails.symm.trans blocking
  unfold acceptConn
  rw [if_neg (Nat.not_le.mpr small)]
  exact if_neg goesOn

theorem acceptConn_epoll (fd : Fd) (nonBlocking : Bool) (ℓ' : LoopId) :
    ((r.acceptConn fd ℓ nonBlocking).loops ℓ').epoll = (r.loops ℓ').epoll := by
  unfold acceptConn
  split
  · rfl
  · dsimp only
    split
    · rfl
    · exact (queueInLoop_loop r ℓ r.nextConn ℓ').1

theorem acceptConn_point (fd : Fd) (nonBlocking : Bool) (ℓ' : LoopId) :
    ((r.acceptConn fd ℓ nonBlocking).loops ℓ').point = (r.loops ℓ').point := by
  unfold acceptConn
  split
  · rfl
  · dsimp only
    split
    · rfl
    · exact (queueInLoop_loop r ℓ r.nextConn ℓ').2.1

theorem acceptConn_conns (fd : Fd) (nonBlocking : Bool) :
    (r.acceptConn fd ℓ nonBlocking).conns = r.conns ∨
      (r.acceptConn fd ℓ nonBlocking).conns =
        update r.conns r.nextConn (some ⟨.new r.nextConn ℓ fd, .idle⟩) := by
  unfold acceptConn
  split
  · exact .inl rfl
  · dsimp only
    split
    · exact .inl rfl
    · exact .inr rfl

/-- The new connection waits to enter its loop. -/
theorem acceptConn_waits (fd : Fd) (nonBlocking : Bool) {ℓ' : LoopId} {c : ConnId}
    (waits : c ∈ ((r.acceptConn fd ℓ nonBlocking).loops ℓ').point.waiting ++
      ((r.acceptConn fd ℓ nonBlocking).loops ℓ').pendingFunctors_) :
    c ∈ (r.loops ℓ').point.waiting ++ (r.loops ℓ').pendingFunctors_ ∨ c = r.nextConn := by
  unfold acceptConn at waits
  split at waits
  · exact .inl waits
  · dsimp only at waits
    split at waits
    · exact .inl waits
    · obtain ⟨_, point, pending⟩ := queueInLoop_loop r ℓ r.nextConn ℓ'
      have queued : c ∈ ((r.queueInLoop ℓ r.nextConn).loops ℓ').point.waiting ++
        ((r.queueInLoop ℓ r.nextConn).loops ℓ').pendingFunctors_ := waits
      rw [point, pending, ← List.append_assoc, List.mem_append] at queued
      -- The queue has grown by the new connection, and only in its loop.
      rcases queued with old | new
      · exact .inl old
      · split at new
        · exact .inr (List.mem_singleton.mp new)
        · cases new

theorem pop_fd2http_ (id : TimerId) (ℓ' : LoopId) :
    ((r.pop ℓ id).loops ℓ').epoll.fd2http_ = (r.loops ℓ').epoll.fd2http_ := by
  by_cases same : ℓ' = ℓ
  · subst same; simp [pop]
  · rw [pop, setEpoll_of_ne r ℓ same]

theorem pop_interest (id : TimerId) (ℓ' : LoopId) :
    ((r.pop ℓ id).loops ℓ').epoll.interest = (r.loops ℓ').epoll.interest := by
  by_cases same : ℓ' = ℓ
  · subst same; simp [pop]
  · rw [pop, setEpoll_of_ne r ℓ same]

end Operations

theorem waiting_subset (point : LoopPoint) : point.waiting ⊆ point.bound := by
  cases point with
  | functors done rest => exact List.subset_append_right done rest
  | polling => exact List.Subset.refl _
  | handling ret => exact List.Subset.refl _
  | expiring => exact List.Subset.refl _

/-! ### What a step is made of -/

/-- The connection of which the step calls a handler. -/
def subject (r : Reactor) : Label → Option ConnId
  | .handle ℓ _ => (r.loops ℓ).point.ret.head?
  | .runFunctor ℓ _ => (r.loops ℓ).point.waiting.head?
  | .expire ℓ id _ =>
    ((r.loops ℓ).epoll.timerManager_.timerNodeQueue.find? (·.id = id)).bind (·.SPHttpData)
  | _ => none

/-- The connection whose events are handled, as `handleEvents` finds it. -/
def handling (r : Reactor) : Label → Option (ConnId × Conn)
  | .handle ℓ a => do
    let c ← (r.loops ℓ).point.ret.head?
    let cl ← r.conns c
    some (c, cl.conn a (r.loops cl.http.loop_).epoll)
  | _ => none

theorem handling_handle {r : Reactor} {ℓ : LoopId} {a : Arrival} {c : ConnId} {s : Conn}
    (handled : r.handling (.handle ℓ a) = some (c, s)) :
    r.subject (.handle ℓ a) = some c := by
  obtain ⟨d, head, rest⟩ := Option.bind_eq_some_iff.mp handled
  obtain ⟨cl, _, eq⟩ := Option.bind_eq_some_iff.mp rest
  cases eq
  exact head

/-- All that a step can be. -/
inductive Steps (w : ConnId → World) (r : Reactor) : Label → Reactor → Prop
  | accept (fd : Fd) (ℓ : LoopId) (nonBlocking : Bool) : r.req_info = none →
      r.isOpen fd = false → Steps w r (.accept fd ℓ nonBlocking) (r.acceptConn fd ℓ nonBlocking)
  | accepted (c : ConnId) : r.req_info = some c →
      Steps w r .accepted ({ r with req_info := none }.release c)
  | poll (ℓ : LoopId) (events : List (Fd × Ready)) (woken : Bool) :
      (r.loops ℓ).point = .polling → reports (r.loops ℓ).epoll.interest events →
      Steps w r (.poll ℓ events woken) (r.pollEvents ℓ events woken)
  | handle (ℓ : LoopId) (a : Arrival) (c : ConnId) (ret : List ConnId) (r' : Reactor) :
      (r.loops ℓ).point = .handling (c :: ret) →
      (r.setPoint ℓ (.handling ret)).call c a (handleEvents (w c)) = some r' →
      Steps w r (.handle ℓ a) (r'.release c)
  | startFunctors (ℓ : LoopId) : (r.loops ℓ).point = .handling [] →
      Steps w r (.startFunctors ℓ) (r.swapFunctors ℓ)
  | runFunctor (ℓ : LoopId) (a : Arrival) (done : List ConnId) (c : ConnId) (rest : List ConnId)
      (r' : Reactor) : (r.loops ℓ).point = .functors done (c :: rest) →
      (r.setPoint ℓ (.functors (done ++ [c]) rest)).call c a newEvent = some r' →
      Steps w r (.runFunctor ℓ a) r'
  | endFunctors (ℓ : LoopId) (done : List ConnId) : (r.loops ℓ).point = .functors done [] →
      Steps w r (.endFunctors ℓ) (done.foldl release (r.setPoint ℓ .expiring))
  | drop (ℓ : LoopId) (a : Arrival) (node : TimerNode) : (r.loops ℓ).point = .expiring →
      (r.loops ℓ).epoll.timerManager_.timerNodeQueue.find? (·.id = node.id) = some node →
      node.SPHttpData = none →
      Steps w r (.expire ℓ node.id a) (r.pop ℓ node.id)
  | close (ℓ : LoopId) (a : Arrival) (node : TimerNode) (c : ConnId) (r' : Reactor) :
      (r.loops ℓ).point = .expiring →
      (r.loops ℓ).epoll.timerManager_.timerNodeQueue.find? (·.id = node.id) = some node →
      node.SPHttpData = some c → (r.pop ℓ node.id).call c a handleClose = some r' →
      Steps w r (.expire ℓ node.id a) (r'.release c)
  | endExpire (ℓ : LoopId) (now : Timeval) : (r.loops ℓ).point = .expiring →
      Steps w r (.endExpire ℓ now) (r.setPoint ℓ .polling)

theorem step_steps {w : ConnId → World} {r r' : Reactor} {l : Label}
    (taken : step w r l = some r') : Steps w r l r' := by
  cases l with
  | accept fd ℓ nonBlocking =>
    simp only [step] at taken
    split at taken
    next free => cases taken; exact .accept fd ℓ nonBlocking free.1 free.2
    next => cases taken
  | accepted =>
    obtain ⟨c, held, rfl⟩ := Option.map_eq_some_iff.mp taken
    exact .accepted c held
  | poll ℓ events woken =>
    simp only [step] at taken
    split at taken
    next ready => cases taken; exact .poll ℓ events woken ready.1 ready.2
    next => cases taken
  | handle ℓ a =>
    simp only [step] at taken
    split at taken
    next c ret point =>
      split at taken
      next =>
        obtain ⟨r₁, called, rfl⟩ := Option.map_eq_some_iff.mp taken
        exact .handle ℓ a c ret r₁ point called
      next => cases taken
    next => cases taken
  | startFunctors ℓ =>
    simp only [step] at taken
    split at taken
    next point => cases taken; exact .startFunctors ℓ point
    next => cases taken
  | runFunctor ℓ a =>
    simp only [step] at taken
    split at taken
    next done c rest point => exact .runFunctor ℓ a done c rest r' point taken
    next => cases taken
  | endFunctors ℓ =>
    simp only [step] at taken
    split at taken
    next done point => cases taken; exact .endFunctors ℓ done point
    next => cases taken
  | expire ℓ id a =>
    simp only [step] at taken
    split at taken
    next point =>
      split at taken
      next node found =>
        have name : node.id = id := by simpa using List.find?_some found
        subst name
        split at taken
        next =>
          unfold popNode at taken
          split at taken
          next idle => cases taken; exact .drop ℓ a node point found idle
          next c refers =>
            obtain ⟨r₁, called, rfl⟩ := Option.map_eq_some_iff.mp taken
            exact .close ℓ a node c r₁ point found refers called
        next => cases taken
      next => cases taken
    next => cases taken
  | endExpire ℓ now =>
    simp only [step] at taken
    split at taken
    next ready => cases taken; exact .endExpire ℓ now ready.1
    next => cases taken

/-- Where there is a step the handler returns. -/
theorem step_returns {w : ConnId → World} {r r' : Reactor} {l : Label} {c : ConnId} {s : Conn}
    (taken : step w r l = some r') (handled : r.handling l = some (c, s)) :
    EventsReturn (w c) s := by
  cases l with
  | handle ℓ a =>
    obtain ⟨d, head, rest⟩ := Option.bind_eq_some_iff.mp handled
    obtain ⟨cl, alive, called⟩ := Option.bind_eq_some_iff.mp rest
    cases called
    simp only [step] at taken
    split at taken
    next e ret point =>
      rw [point] at head
      cases head
      split at taken
      next returns => exact returns cl alive
      next => cases taken
    next => cases taken
  | _ => cases handled

end Reactor
end LightAgent

import LightAgent.HttpData.FailStop
import LightAgent.Reactor.Leaks

/-!
# Connections that have failed

A connection that `handleClose` has been called for is `Severed`: no table, no timer and no
functor leads to it any more, so no step calls a handler of it again.
-/
namespace LightAgent

open Library Function

namespace Reactor

/-- Nothing that a loop goes through leads to the connection, nor ever will. -/
structure Severed (r : Reactor) (c : ConnId) : Prop where
  unlisted : ∀ ℓ fd, (r.loops ℓ).epoll.fd2http_ fd ≠ some c
  detached : ∀ ℓ, (r.loops ℓ).epoll.timerManager_.Detached c
  entered : ∀ ℓ, c ∉ (r.loops ℓ).point.waiting ++ (r.loops ℓ).pendingFunctors_
  born : c < r.nextConn

@[simp] theorem release_nextConn (r : Reactor) (c : ConnId) :
    (r.release c).nextConn = r.nextConn := by
  unfold release
  split
  · rfl
  · dsimp only
    split <;> rfl

theorem report_nextConn (ℓ : LoopId) (r : Reactor) (e : Fd × Ready) :
    (report ℓ r e).nextConn = r.nextConn := by
  unfold report
  dsimp only
  split <;> rfl

theorem reports_nextConn (ℓ : LoopId) (r : Reactor) (events : List (Fd × Ready)) :
    (events.foldl (report ℓ) r).nextConn = r.nextConn := by
  induction events generalizing r with
  | nil => rfl
  | cons e events ih => exact (ih (report ℓ r e)).trans (report_nextConn ℓ r e)

theorem acceptConn_nextConn (r : Reactor) (fd : Fd) (ℓ : LoopId) (nonBlocking : Bool) :
    r.nextConn ≤ (r.acceptConn fd ℓ nonBlocking).nextConn := by
  unfold acceptConn
  split
  · exact Nat.le_refl _
  · dsimp only
    split
    · exact Nat.le_refl _
    · exact Nat.le_succ _

namespace Severed

variable {r : Reactor} {c d : ConnId} {cl : Client} {a : Arrival} {s : Conn}

/-- No handler of the connection is called next. -/
theorem idle (severed : r.Severed c) (sound : r.Sound) (l : Label) : r.subject l ≠ some c := by
  intro subject
  cases l with
  | handle ℓ a =>
    obtain ⟨fd, entry⟩ := (sound.ret ℓ).2 c (List.mem_of_mem_head? subject)
    exact severed.unlisted ℓ fd entry
  | runFunctor ℓ a =>
    exact severed.entered ℓ (List.mem_append_left _ (List.mem_of_mem_head? subject))
  | expire ℓ id a =>
    obtain ⟨node, found, refers⟩ := Option.bind_eq_some_iff.mp subject
    exact severed.detached ℓ node (List.mem_of_find?_eq_some found) refers
  | _ => cases subject

/-- `Severed` reads the entries, the queues of nodes and functors and the counter. -/
theorem congr {r' : Reactor} (severed : r.Severed c)
    (http : ∀ ℓ, (r'.loops ℓ).epoll.fd2http_ = (r.loops ℓ).epoll.fd2http_)
    (timers : ∀ ℓ, (r'.loops ℓ).epoll.timerManager_ = (r.loops ℓ).epoll.timerManager_)
    (waiting : ∀ ℓ, (r'.loops ℓ).point.waiting ++ (r'.loops ℓ).pendingFunctors_ ⊆
      (r.loops ℓ).point.waiting ++ (r.loops ℓ).pendingFunctors_)
    (count : r.nextConn ≤ r'.nextConn) : r'.Severed c where
  unlisted ℓ fd := by rw [http]; exact severed.unlisted ℓ fd
  detached ℓ := by rw [timers]; exact severed.detached ℓ
  entered ℓ waits := severed.entered ℓ (waiting ℓ waits)
  born := Nat.lt_of_lt_of_le severed.born count

theorem setPoint (severed : r.Severed c) {ℓ : LoopId} {point : LoopPoint}
    (waiting : point.waiting ⊆ (r.loops ℓ).point.waiting) : (r.setPoint ℓ point).Severed c := by
  exact severed.congr (fun ℓ' => by rw [setPoint_epoll]) (fun ℓ' => by rw [setPoint_epoll])
    (setPoint_waits r ℓ waiting) (Nat.le_refl _)

theorem release (severed : r.Severed c) (d : ConnId) : (r.release d).Severed c := by
  have loops := release_loop r d
  refine severed.congr (fun ℓ => (loops ℓ).fd2http_) (fun ℓ => (loops ℓ).timerManager_) (fun ℓ => ?_)
    (Nat.le_of_eq (release_nextConn r d).symm)
  rw [(loops ℓ).pendingFunctors_, (loops ℓ).point]
  exact List.Subset.refl _

theorem releases (severed : r.Severed c) (cs : List ConnId) :
    (cs.foldl Reactor.release r).Severed c := by
  induction cs generalizing r with
  | nil => exact severed
  | cons d cs ih => exact ih (severed.release d)

theorem poll (severed : r.Severed c) (ℓ : LoopId) (events : List (Fd × Ready)) (woken : Bool) :
    (r.pollEvents ℓ events woken).Severed c := by
  have loops := reports_loop r ℓ events
  have reported : (events.foldl (Reactor.report ℓ) r).Severed c := by
    refine severed.congr (fun ℓ' => (loops ℓ').fd2http_) (fun ℓ' => (loops ℓ').timerManager_) (fun ℓ' => ?_)
      (Nat.le_of_eq (reports_nextConn ℓ r events).symm)
    rw [(loops ℓ').pendingFunctors_, (loops ℓ').point]
    exact List.Subset.refl _
  unfold pollEvents
  dsimp only
  split
  · exact reported.setPoint (List.nil_subset _)
  · exact reported.setPoint (List.nil_subset _)

theorem pop (severed : r.Severed c) (ℓ : LoopId) (id : TimerId) : (r.pop ℓ id).Severed c where
  unlisted ℓ' fd := by rw [pop_fd2http_]; exact severed.unlisted ℓ' fd
  detached ℓ' := by
    by_cases same : ℓ' = ℓ
    · subst same
      rw [Reactor.pop, setEpoll_epoll]
      exact fun node queued => severed.detached ℓ' node (List.mem_of_mem_filter queued)
    · rw [Reactor.pop, setEpoll_of_ne r ℓ same]
      exact severed.detached ℓ'
  entered ℓ' := by
    rw [Reactor.pop, setEpoll_pending, setEpoll_point]
    exact severed.entered ℓ'
  born := severed.born

theorem accept (severed : r.Severed c) (fd : Fd) (ℓ : LoopId) (nonBlocking : Bool) :
    (r.acceptConn fd ℓ nonBlocking).Severed c where
  unlisted ℓ' := by rw [acceptConn_epoll]; exact severed.unlisted ℓ'
  detached ℓ' := by rw [acceptConn_epoll]; exact severed.detached ℓ'
  entered ℓ' waits := by
    rcases acceptConn_waits r ℓ fd nonBlocking waits with old | new
    · exact severed.entered ℓ' old
    · exact absurd severed.born (new ▸ Nat.lt_irrefl _)
  born := Nat.lt_of_lt_of_le severed.born (acceptConn_nextConn r fd ℓ nonBlocking)

theorem swap (severed : r.Severed c) {ℓ : LoopId} (point : (r.loops ℓ).point = .handling []) :
    (r.swapFunctors ℓ).Severed c := by
  refine severed.congr (fun ℓ' => by rw [swapFunctors_epoll]) (fun ℓ' => by rw [swapFunctors_epoll])
    (fun ℓ' => ?_) (Nat.le_refl _)
  by_cases same : ℓ' = ℓ
  · subst same
    simp [swapFunctors, LoopPoint.waiting]
  · simp [swapFunctors, same]

/-- What a handler of another connection leaves behind. -/
theorem store (severed : r.Severed c) (sound : r.Sound) (other : d ≠ c)
    (alive : r.conns d = some cl)
    (effect : TableEffect (cl.conn a (r.loops cl.http.loop_).epoll) s) :
    (r.store d s).Severed c where
  unlisted ℓ fd entry := by
    rcases sound.store_entry alive effect entry with ⟨own, _⟩ | ⟨_, old⟩
    · exact other own.symm
    · exact severed.unlisted ℓ fd old
  detached ℓ node queued refers := by
    have loop_ : s.http.loop_ = cl.http.loop_ := effect.loop_
    by_cases here : ℓ = cl.http.loop_
    · subst here
      rw [← loop_, store_epoll] at queued
      rcases effect.refs node queued c refers with own | ⟨old, member, refers'⟩
      · exact other ((sound.named d cl alive).1.symm.trans own.symm)
      · exact severed.detached _ old member refers'
    · rw [store_of_ne r d (loop_ ▸ here)] at queued
      exact severed.detached ℓ node queued refers
  entered ℓ waits := by
    unfold Reactor.store at waits
    rw [setEpoll_point, setEpoll_pending] at waits
    exact severed.entered ℓ waits
  born := severed.born

theorem step {w : ConnId → World} {r' : Reactor} {l : Label} (severed : r.Severed c)
    (sound : r.Sound) (taken : Reactor.step w r l = some r') : r'.Severed c := by
  -- No handler that the step calls is one of `c`, so each leaves it as it is.
  have idle := severed.idle sound l
  cases step_steps taken with
  | accept fd ℓ nonBlocking _ _ => exact severed.accept fd ℓ nonBlocking
  | accepted d _ =>
    have local_ : Severed { r with req_info := none } c :=
      ⟨severed.unlisted, severed.detached, severed.entered, severed.born⟩
    exact local_.release d
  | poll ℓ events woken _ _ => exact severed.poll ℓ events woken
  | handle ℓ a d ret r₁ point called =>
    obtain ⟨cl, alive, rfl, _, _, _, _, rfl⟩ := sound.handle_inv point called
    have other : d ≠ c := fun same => idle (by simp [subject, point, LoopPoint.ret, same])
    refine ((severed.setPoint (List.nil_subset _)).store (a := a) (sound.nextHandler point) other
      alive ?_).release d
    rw [setPoint_epoll]
    exact handleEvents_effect (w d) _
  | startFunctors ℓ point => exact severed.swap point
  | runFunctor ℓ a done d rest r₁ point called =>
    obtain ⟨cl, alive, rfl, _, _, _, rfl⟩ := sound.functor_inv point called
    have other : d ≠ c := fun same => idle (by simp [subject, point, LoopPoint.waiting, same])
    refine (severed.setPoint ?_).store (a := a) (sound.nextFunctor point) other alive ?_
    · rw [point]
      exact List.subset_cons_self d rest
    · rw [setPoint_epoll]
      exact newEvent_effect _
  | endFunctors ℓ done _ => exact (severed.setPoint (List.nil_subset _)).releases done
  | drop ℓ a node _ _ _ => exact severed.pop ℓ node.id
  | close ℓ a node d r₁ point found refers called =>
    obtain ⟨cl, alive, rfl, _, rfl⟩ := sound.close_inv point found refers called
    have other : d ≠ c := by
      intro same
      apply idle
      simp only [subject, found, Option.bind_some]
      rw [refers, same]
    exact ((severed.pop _ node.id).store (sound.pop _ node.id) other alive
      (handleClose_closed _).effect).release d
  | endExpire ℓ now _ => exact severed.setPoint (List.nil_subset _)

end Severed

/-! ### Connections that are left alone -/

/-- The connection has been destroyed, or is as it was but for its channel. -/
def LeftAlone (r r' : Reactor) (c : ConnId) : Prop :=
  ∀ cl', r'.conns c = some cl' → ∃ cl channel, r.conns c = some cl ∧
    cl' = { cl with http := { cl.http with channel_ := channel } }

namespace LeftAlone

variable {r r' r'' : Reactor} {c : ConnId}

theorem of_same (same : r'.conns c = r.conns c) : r.LeftAlone r' c := by
  intro cl' alive
  exact ⟨cl', cl'.http.channel_, same.symm.trans alive, rfl⟩

theorem trans (first : r.LeftAlone r' c) (second : r'.LeftAlone r'' c) : r.LeftAlone r'' c := by
  intro cl'' alive''
  obtain ⟨cl', channel', alive', rfl⟩ := second cl'' alive''
  obtain ⟨cl, channel, alive, rfl⟩ := first cl' alive'
  exact ⟨cl, channel', alive, rfl⟩

theorem release (r : Reactor) (c d : ConnId) : r.LeftAlone (r.release d) c := by
  rcases release_conns r d with same | ⟨cl, _, gone, _⟩
  · exact of_same (by rw [same])
  · intro cl' alive
    exact of_same rfl cl' (of_update_none (gone ▸ alive)).2

theorem releases (r : Reactor) (c : ConnId) (cs : List ConnId) :
    r.LeftAlone (cs.foldl Reactor.release r) c := by
  induction cs generalizing r with
  | nil => exact of_same rfl
  | cons d cs ih => exact (release r c d).trans (ih _)

theorem report (r : Reactor) (c : ConnId) (ℓ : LoopId) (e : Fd × Ready) :
    r.LeftAlone (Reactor.report ℓ r e) c := by
  intro cl' alive
  obtain ⟨cl, before, rfl | rfl⟩ := report_some r ℓ alive
  · exact of_same rfl cl' before
  · exact ⟨cl, _, before, rfl⟩

theorem reports (r : Reactor) (c : ConnId) (ℓ : LoopId) (events : List (Fd × Ready)) :
    r.LeftAlone (events.foldl (Reactor.report ℓ) r) c := by
  induction events generalizing r with
  | nil => exact of_same rfl
  | cons e events ih => exact (report r c ℓ e).trans (ih _)

/-- A handler of another connection. -/
theorem call {d : ConnId} {a : Arrival} {handler : Conn → Conn} (other : d ≠ c)
    (called : r.call d a handler = some r') : r.LeftAlone r' c := by
  obtain ⟨cl, _, rfl⟩ := Option.map_eq_some_iff.mp called
  exact of_same (update_of_ne (Ne.symm other) _ _)

/-- A step leaves every connection alone but the one whose handler it calls and the one that it
makes. -/
theorem step {w : ConnId → World} {l : Label} (taken : Reactor.step w r l = some r')
    (other : r.subject l ≠ some c) : r.LeftAlone r' c ∨
      c = r.nextConn ∧ ∃ ℓ fd, r'.conns c = some ⟨.new c ℓ fd, .idle⟩ := by
  cases step_steps taken with
  | accept fd ℓ nonBlocking _ _ =>
    rcases acceptConn_conns r ℓ fd nonBlocking with same | new
    · exact .inl (of_same (by rw [same]))
    -- The connection that `accept` makes is the only new one.
    · by_cases made : c = r.nextConn
      · subst made
        exact .inr ⟨rfl, ℓ, fd, by rw [new, update_self]⟩
      · exact .inl (of_same (by rw [new, update_of_ne made]))
  | accepted d _ => exact .inl (release _ c d)
  | poll ℓ events woken _ _ => exact .inl (reports r c ℓ events)
  | handle ℓ a d ret r₁ point called =>
    have differs : d ≠ c := fun same => other (by simp [subject, point, LoopPoint.ret, same])
    exact .inl ((call (r := r.setPoint ℓ (.handling ret)) differs called).trans (release r₁ c d))
  | startFunctors ℓ _ => exact .inl (of_same rfl)
  | runFunctor ℓ a done d rest r₁ point called =>
    have differs : d ≠ c := fun same => other (by simp [subject, point, LoopPoint.waiting, same])
    exact .inl (call (r := r.setPoint ℓ (.functors (done ++ [d]) rest)) differs called)
  | endFunctors ℓ done _ => exact .inl (releases _ c done)
  | drop ℓ a node _ _ _ => exact .inl (of_same rfl)
  | close ℓ a node d r₁ _ found refers called =>
    have differs : d ≠ c := by
      intro same
      apply other
      simp only [subject, found, Option.bind_some]
      rw [refers, same]
    exact .inl ((call (r := r.pop ℓ node.id) differs called).trans (release r₁ c d))
  | endExpire ℓ now _ => exact .inl (of_same rfl)

end LeftAlone

/-! ### Calls of handleClose -/

/-- The connection that the step calls `handleClose` for: where `handleConn` closes it, and where
its timeout does. -/
def closes (w : ConnId → World) (r : Reactor) : Label → Option ConnId
  | .handle ℓ a => do
    let (c, s) ← r.handling (.handle ℓ a)
    if returnsEarly s.http.channel_.revents_ = false ∧ (decided (w c) s).http.connExit = .closes then
      some c
    else none
  | .expire ℓ id a => r.subject (.expire ℓ id a)
  | _ => none

/-- A handler has taken the connection out of the tables, and nothing else leads to it. -/
theorem Sound.severed {r : Reactor} (sound : r.Sound) {c : ConnId} {cl : Client} {a : Arrival}
    {s : Conn} (alive : r.conns c = some cl)
    (effect : TableEffect (cl.conn a (r.loops cl.http.loop_).epoll) s)
    (gone : s.epoll.fd2http_ cl.http.fd_ = none) (detached : s.epoll.timerManager_.Detached c)
    (entered : ∀ ℓ, c ∉ (r.loops ℓ).point.waiting ++ (r.loops ℓ).pendingFunctors_) :
    (r.store c s).Severed c := by
  have loop_ : s.http.loop_ = cl.http.loop_ := effect.loop_
  constructor
  case unlisted =>
    intro ℓ fd entry
    -- An entry of `c` could only be the one that the handler has removed.
    rcases sound.store_entry alive effect entry with ⟨_, rfl, rfl⟩ | ⟨differs, _⟩
    · rw [← loop_, store_epoll, gone] at entry
      cases entry
    · exact differs rfl
  case detached =>
    intro ℓ node queued refers
    by_cases here : ℓ = cl.http.loop_
    · subst here
      rw [← loop_, store_epoll] at queued
      exact detached node queued refers
    · rw [store_of_ne r c (loop_ ▸ here)] at queued
      exact here (Sound.lives_unique (sound.timers ℓ node queued c refers) ⟨cl, alive, rfl⟩)
  case entered =>
    intro ℓ waits
    unfold Reactor.store at waits
    rw [setEpoll_point, setEpoll_pending] at waits
    exact entered ℓ waits
  case born => exact (sound.named c cl alive).2.2

theorem closes_handle {w : ConnId → World} {r : Reactor} {ℓ : LoopId} {a : Arrival} {c : ConnId}
    {s : Conn} (handled : r.handling (.handle ℓ a) = some (c, s)) :
    r.closes w (.handle ℓ a) =
      if returnsEarly s.http.channel_.revents_ = false ∧ (decided (w c) s).http.connExit = .closes
      then some c else none := by
  simp only [closes, handled]
  rfl

/-- After `handleClose` the connection is severed. -/
theorem closes_severed {w : ConnId → World} {r r' : Reactor} {l : Label} (sound : r.Sound)
    (timed : r.Timed) (taken : step w r l = some r') {c : ConnId}
    (closed : r.closes w l = some c) : r'.Severed c := by
  cases step_steps taken with
  | handle ℓ a d ret r₁ point called =>
    obtain ⟨cl, alive, rfl, _, handled, _, settled, rfl⟩ := sound.handle_inv point called
    rw [closes_handle handled] at closed
    obtain ⟨⟨heard, exit⟩, same⟩ := Option.ite_none_right_eq_some.mp closed
    cases same
    have named := (sound.named c cl alive).1
    have detached := (decided_timed (w c) (timed.conn sound alive a)).2
    have ends := handleEvents_closes heard exit
    -- `handleConn` drops the timer before it closes, and `handleClose` removes the entries.
    refine Severed.release ((sound.nextHandler point).severed (a := a) alive ?_ ?_ ?_ settled) c
    · rw [setPoint_epoll]
      exact handleEvents_effect (w c) _
    · rw [ends.fd2http_, (decided_frame _ _).fd_]
      exact update_self _ _ _
    · rw [ends.timers.timerManager_]
      exact named ▸ detached
  | drop ℓ a node _ found idle =>
    simp only [closes, subject, found, Option.bind_some, idle] at closed
    cases closed
  | close ℓ a node d r₁ point found refers called =>
    simp only [closes, subject, found, Option.bind_some, refers] at closed
    cases closed
    obtain ⟨cl, alive, rfl, _, rfl⟩ := sound.close_inv point found refers called
    have queued := List.mem_of_find?_eq_some found
    have ends := handleClose_closed
      (cl.conn a ((r.pop cl.http.loop_ node.id).loops cl.http.loop_).epoll)
    refine Severed.release ((sound.pop _ node.id).severed (a := a) alive ends.effect ?_ ?_ ?_) c
    · rw [ends.fd2http_]
      exact update_self _ _ _
    · -- The node that is popped was the only one for the connection.
      rw [ends.timers.timerManager_]
      intro other member refers'
      change other ∈ ((r.pop cl.http.loop_ node.id).loops _).epoll.timerManager_.timerNodeQueue
        at member
      rw [Reactor.pop, setEpoll_epoll] at member
      obtain ⟨old, differs⟩ := List.mem_filter.mp member
      have same := (timed.linked _).unique old queued refers' refers
      subst same
      simp at differs
    · intro ℓ' waits
      rw [Reactor.pop, setEpoll_pending, setEpoll_point] at waits
      exact sound.settled alive (timed.settled queued refers) ℓ' waits
  | _ => cases closed

/-! ### What is left of a connection that has failed -/

/-- `handleConn` sets a timeout only for a connection that is there and has not failed. -/
theorem connExit_rearms {h : HttpData} {events : Events} {timeout : Nat}
    (exit : h.connExit = .rearms events timeout) :
    h.error_ = false ∧ h.connectionState_ = .connected := by
  unfold HttpData.connExit at exit
  dsimp only at exit
  split at exit
  next there => exact ⟨by simpa using there.1, there.2⟩
  next =>
    split at exit
    · cases exit
    · cases exit

/-- A connection that has failed or is closed is severed. -/
def Buried (r : Reactor) : Prop :=
  ∀ c cl, r.conns c = some cl →
    cl.http.error_ = true ∨ cl.http.connectionState_ = .disconnected → r.Severed c

theorem buried_new : new.Buried := by
  intro c cl alive
  cases alive

namespace Buried

variable {r r' : Reactor} {w : ConnId → World} {l : Label} {c : ConnId}

/-- A connection whose handler is called next has not failed and is not closed. -/
theorem whole (buried : r.Buried) (sound : r.Sound) (own : r.subject l = some c) {cl : Client}
    (alive : r.conns c = some cl) :
    cl.http.error_ = false ∧ cl.http.connectionState_ ≠ .disconnected := by
  -- A severed connection is the subject of no step.
  refine ⟨?_, fun closed => (buried c cl alive (.inr closed)).idle sound l own⟩
  cases failed : cl.http.error_ with
  | false => rfl
  | true => exact absurd own ((buried c cl alive (.inl failed)).idle sound l)

/-- What a handler of the connection that does not call `handleClose` leaves. -/
theorem subject (buried : r.Buried) (sound : r.Sound) (taken : Reactor.step w r l = some r')
    (own : r.subject l = some c) (open_ : r.closes w l ≠ some c) {cl' : Client}
    (alive' : r'.conns c = some cl') :
    cl'.http.error_ = false ∧ cl'.http.connectionState_ ≠ .disconnected := by
  cases step_steps taken with
  | handle ℓ a d ret r₁ point called =>
    obtain ⟨cl, alive, rfl, _, handled, _, _, rfl⟩ := sound.handle_inv point called
    cases (handling_handle handled).symm.trans own
    obtain ⟨error, state⟩ := buried.whole sound own alive
    obtain ⟨dl, channel, stored, rfl⟩ := LeftAlone.release _ c c cl' alive'
    cases (update_self _ _ _).symm.trans stored
    rw [closes_handle handled] at open_
    dsimp only
    -- Of the exits of `handleEvents`, only the one that closes leaves a connection failed or gone.
    cases handleEvents_handled (w c) (cl.conn a (r.loops cl.http.loop_).epoll) with
    | ignored _ eq =>
      rw [eq]
      exact ⟨error, state⟩
    | rearmed events timeout _ exit _ modified =>
      obtain ⟨timer, http⟩ := modified.http
      obtain ⟨going, there⟩ := connExit_rearms exit
      rw [http]
      exact ⟨going, fun closed => nomatch there.symm.trans closed⟩
    | stranded _ exit eq =>
      obtain ⟨going, leaving, _⟩ := connExit_strands.mp exit
      rw [eq]
      exact ⟨going, fun closed => nomatch leaving.symm.trans closed⟩
    | closed early exit _ => exact absurd (if_pos ⟨early, exit⟩) open_
  | runFunctor ℓ a done d rest r₁ point called =>
    obtain ⟨cl, alive, rfl, _, _, _, rfl⟩ := sound.functor_inv point called
    have same : d = c := by simpa [Reactor.subject, point, LoopPoint.waiting] using own
    subst same
    obtain ⟨error, state⟩ := buried.whole sound own alive
    cases (update_self _ _ _).symm.trans alive'
    obtain ⟨timer, http⟩ := (newEvent_entered (cl.conn a (r.loops cl.http.loop_).epoll)).http
    dsimp only
    rw [http]
    exact ⟨error, state⟩
  | drop => exact absurd own open_
  | close => exact absurd own open_
  | _ => cases own

theorem step (buried : r.Buried) (sound : r.Sound) (timed : r.Timed)
    (taken : Reactor.step w r l = some r') : r'.Buried := by
  intro c cl' alive' ended
  -- Either the step closes the connection, or it handles and does not close it, or it leaves it
  -- alone.
  by_cases closed : r.closes w l = some c
  · exact closes_severed sound timed taken closed
  by_cases own : r.subject l = some c
  · obtain ⟨going, there⟩ := buried.subject sound taken own closed alive'
    rcases ended with failed | gone
    · cases going.symm.trans failed
    · exact absurd gone there
  rcases LeftAlone.step taken own with alone | ⟨_, ℓ, fd, new⟩
  · obtain ⟨cl, channel, alive, rfl⟩ := alone cl' alive'
    exact (buried c cl alive ended).step sound taken
  · cases new.symm.trans alive'
    rcases ended with failed | gone
    · cases failed
    · cases gone

end Buried

/-- The invariants of every run. -/
structure Kept (r : Reactor) : Prop where
  sound : r.Sound
  timed : r.Timed
  buried : r.Buried

theorem kept_new : new.Kept := ⟨sound_new, timed_new, buried_new⟩

theorem Kept.step {w : ConnId → World} {r r' : Reactor} {l : Label} (kept : r.Kept)
    (taken : Reactor.step w r l = some r') : r'.Kept where
  sound := kept.sound.step r l r' taken
  timed := kept.timed.step kept.sound taken
  buried := kept.buried.step kept.sound kept.timed taken

/-! ### Runs -/

section Runs

variable {w : ConnId → World} {r r' : Reactor} {ls : List Label} {c : ConnId}

theorem Kept.exec (kept : r.Kept) (run : (machine w).exec r ls = some r') : r'.Kept :=
  Machine.invariant_exec (fun _ _ _ => Kept.step) kept run

/-- The connections `handleClose` is called for along a run, in this order. -/
def closings (w : ConnId → World) (r : Reactor) (ls : List Label) : List ConnId :=
  (machine w).output (fun r l => (r.closes w l).toList) r ls

theorem closes_subject {l : Label} (closed : r.closes w l = some c) : r.subject l = some c := by
  cases l with
  | handle ℓ a =>
    obtain ⟨⟨d, s⟩, handled, rest⟩ := Option.bind_eq_some_iff.mp closed
    obtain ⟨_, same⟩ := Option.ite_none_right_eq_some.mp rest
    cases same
    exact handling_handle handled
  | expire ℓ id a => exact closed
  | _ => cases closed

/-- No handler of a severed connection is called any more, and nothing but its channel changes. -/
theorem Severed.exec (severed : r.Severed c) (kept : r.Kept)
    (run : (machine w).exec r ls = some r') : r'.Severed c ∧ r.LeftAlone r' c ∧
      (machine w).Along (fun r l _ => r.subject l ≠ some c) r ls ∧ c ∉ closings w r ls := by
  induction ls generalizing r with
  | nil =>
    cases run
    exact ⟨severed, .of_same rfl, trivial, List.not_mem_nil⟩
  | cons l ls ih =>
    obtain ⟨next, taken, rest⟩ := Machine.exec_step run
    have idle := severed.idle kept.sound l
    obtain ⟨later, alone, along, silent⟩ := ih (severed.step kept.sound taken) (kept.step taken) rest
    -- The connection has been made before, so `accept` does not make it again.
    have first : r.LeftAlone next c := by
      rcases LeftAlone.step taken idle with alone | ⟨new, _⟩
      · exact alone
      · exact absurd severed.born (new ▸ Nat.lt_irrefl _)
    refine ⟨later, first.trans alone, ?_, ?_⟩
    · rw [Machine.Along, taken]
      exact ⟨idle, along⟩
    · unfold closings
      rw [Machine.output_cons _ taken]
      intro member
      rcases List.mem_append.mp member with now | then_
      · exact idle (closes_subject (Option.mem_toList.mp now))
      · exact silent then_

/-- `handleClose` severs a connection for the rest of the run. -/
theorem severed_of_closed (kept : r.Kept) (run : (machine w).exec r ls = some r')
    (closed : c ∈ closings w r ls) : r'.Severed c := by
  induction ls generalizing r with
  | nil => cases closed
  | cons l ls ih =>
    obtain ⟨next, taken, rest⟩ := Machine.exec_step run
    unfold closings at closed
    rw [Machine.output_cons _ taken] at closed
    rcases List.mem_append.mp closed with now | then_
    · have severed := closes_severed kept.sound kept.timed taken (Option.mem_toList.mp now)
      exact (severed.exec (kept.step taken) rest).1
    · exact ih (kept.step taken) rest then_

end Runs

/-! ### Failing and stopping -/

/-- What becomes of a connection `c` for which `handleEvents`, called on `s`, has set `error_`:
`r'` is the reactor when the call has returned, `r''` at the end of the run. -/
structure FailStop (w : ConnId → World) (earlier : List Label) (l : Label) (later : List Label)
    (r' r'' : Reactor) (c : ConnId) (s : Conn) : Prop where
  alive : s.http.error_ = false
  /-- the call taken apart: after `error_` is set its steps write nothing but the error response -/
  round : ∃ a ls responses, (Stream.machine (w c)).exec ⟨s, .waiting, []⟩
      (.event a s.http.channel_.revents_ :: ls) =
        some ⟨handleEvents (w c) s, .waiting, responses⟩ ∧
    (Stream.machine (w c)).Along (fun s _ s' => s.FailStop s') ⟨s, .waiting, []⟩
      (.event a s.http.channel_.revents_ :: ls)
  /-- `handleClose` runs once, when the call returns it has run -/
  closed : (closings w new (earlier ++ [l])).count c = 1
  once : (closings w new (earlier ++ l :: later)).count c = 1
  unlisted : (r'.loops s.http.loop_).epoll.fd2chan_ s.http.fd_ = none ∧
    (r'.loops s.http.loop_).epoll.fd2http_ s.http.fd_ = none
  removed : r'.Removed c
  detached : ∀ ℓ, (r'.loops ℓ).epoll.timerManager_.Detached c
  /-- no event, timeout or functor calls a handler of it again -/
  idle : (machine w).Along (fun r l _ => r.subject l ≠ some c) r' later
  silent : r'.LeftAlone r'' c

/-- `error_` is set by `handleEvents`. -/
theorem Kept.error_set {w : ConnId → World} {r r' : Reactor} {l : Label} {c : ConnId}
    {cl cl' : Client} (kept : r.Kept) (taken : Reactor.step w r l = some r')
    (alive : r.conns c = some cl) (going : cl.http.error_ = false)
    (alive' : r'.conns c = some cl') (failed : cl'.http.error_ = true) :
    ∃ s, r.handling l = some (c, s) ∧ (handleEvents (w c) s).http.error_ = true := by
  -- Only a handler of the connection changes `error_`: `newEvent` and `handleClose` do not.
  by_cases own : r.subject l = some c
  · by_cases closed : r.closes w l = some c
    · cases step_steps taken with
      | handle ℓ a d ret r₁ point called =>
        obtain ⟨dl, _, rfl, _, handled, _, _, rfl⟩ := kept.sound.handle_inv point called
        cases (handling_handle handled).symm.trans own
        refine ⟨_, handled, ?_⟩
        obtain ⟨dl, channel, stored, rfl⟩ := LeftAlone.release _ c c cl' alive'
        cases (update_self _ _ _).symm.trans stored
        exact failed
      | drop ℓ a node _ found idle =>
        simp only [subject, found, Option.bind_some, idle] at own
        cases own
      | close ℓ a node d r₁ point found refers called =>
        simp only [subject, found, Option.bind_some, refers] at own
        cases own
        obtain ⟨dl, alive₀, rfl, _, rfl⟩ := kept.sound.close_inv point found refers called
        cases alive.symm.trans alive₀
        obtain ⟨el, channel, stored, rfl⟩ := LeftAlone.release _ c c cl' alive'
        cases (update_self _ _ _).symm.trans stored
        rw [(handleClose_closed _).http] at failed
        cases going.symm.trans failed
      | _ => cases closed
    · cases (kept.buried.subject kept.sound taken own closed alive').1.symm.trans failed
  · rcases LeftAlone.step taken own with alone | ⟨_, ℓ, fd, new⟩
    · obtain ⟨dl, channel, alive₀, rfl⟩ := alone cl' alive'
      cases alive.symm.trans alive₀
      cases going.symm.trans failed
    · cases new.symm.trans alive'
      cases failed

/-- A call of `handleEvents` as its loop finds the tables when it has returned. -/
theorem Kept.handled {w : ConnId → World} {r r' : Reactor} {l : Label} {c : ConnId} {s : Conn}
    (kept : r.Kept) (taken : Reactor.step w r l = some r') (handled : r.handling l = some (c, s)) :
    (r'.loops s.http.loop_).epoll.fd2http_ = (handleEvents (w c) s).epoll.fd2http_ ∧
      (r'.loops s.http.loop_).epoll.fd2chan_ = (handleEvents (w c) s).epoll.fd2chan_ ∧
      ∃ ℓ a cl, l = .handle ℓ a ∧ r.conns c = some cl ∧
        s = cl.conn a (r.loops cl.http.loop_).epoll := by
  cases step_steps taken with
  | handle ℓ a d ret r₁ point called =>
    obtain ⟨cl, alive, rfl, _, handled', _, _, rfl⟩ := kept.sound.handle_inv point called
    cases handled'.symm.trans handled
    have loop_ : (handleEvents (w c) (cl.conn a (r.loops cl.http.loop_).epoll)).http.loop_ =
        cl.http.loop_ := (handleEvents_effect (w c) _).loop_
    have stored := store_epoll (r.setPoint cl.http.loop_ (.handling ret)) c
      (handleEvents (w c) (cl.conn a (r.loops cl.http.loop_).epoll))
    rw [loop_] at stored
    have loops := release_loop ((r.setPoint cl.http.loop_ (.handling ret)).store c
      (handleEvents (w c) (cl.conn a (r.loops cl.http.loop_).epoll))) c cl.http.loop_
    refine ⟨loops.fd2http_.trans ?_, loops.fd2chan_.trans ?_, cl.http.loop_, a, cl, rfl, alive, rfl⟩
    · rw [stored]
    · rw [stored]
  | _ => cases handled

/-- `error_` is set by `handleEvents` only, and from then on the connection is left alone. -/
theorem fail_stop {w : ConnId → World} {earlier later : List Label} {l : Label}
    {r r' r'' : Reactor} (before : (machine w).exec new earlier = some r)
    (taken : step w r l = some r') (after : (machine w).exec r' later = some r'') :
    (∀ c cl cl', r.conns c = some cl → cl.http.error_ = false → r'.conns c = some cl' →
      cl'.http.error_ = true → ∃ s, r.handling l = some (c, s) ∧
        (handleEvents (w c) s).http.error_ = true) ∧
    ∀ c s, r.handling l = some (c, s) → (handleEvents (w c) s).http.error_ = true →
      FailStop w earlier l later r' r'' c s := by
  have kept := kept_new.exec before
  refine ⟨fun c cl cl' alive going alive' failed =>
    kept.error_set taken alive going alive' failed, fun c s handled failed => ?_⟩
  obtain ⟨http, chan, ℓ, a, cl, rfl, alive, rfl⟩ := kept.handled taken handled
  have own := handling_handle handled
  obtain ⟨going, there⟩ := kept.buried.whole kept.sound own alive
  -- A failure in the call makes it leave through `handleClose`, which severs the connection.
  have exit := handleEvents_fails going failed
  have closes : r.closes w (.handle ℓ a) = some c := (closes_handle handled).trans (if_pos exit)
  have severed := closes_severed kept.sound kept.timed taken closes
  obtain ⟨_, alone, idle, silent⟩ := severed.exec (kept.step taken) after
  -- `handleClose` has not been called for a connection whose events are handled.
  have unclosed : c ∉ closings w new earlier := fun member =>
    (severed_of_closed kept_new before member).idle kept.sound _ own
  -- Once in this step, never before and never again.
  have counted (rest : List Label) (silent : c ∉ closings w r' rest) :
      (closings w new (earlier ++ .handle ℓ a :: rest)).count c = 1 := by
    unfold closings at unclosed silent ⊢
    rw [Machine.output_append _ before, Machine.output_cons _ taken, closes, List.count_append,
      List.count_append, List.count_eq_zero.mpr unclosed, List.count_eq_zero.mpr silent]
    simp
  constructor
  case alive => exact going
  case round =>
    -- The connection meets this kernel already, and `handleEvents` clears `events_` itself.
    have called : EventsReturn (w c) (cl.conn a (r.loops cl.http.loop_).epoll) :=
      step_returns taken handled
    have returns : EventsReturn (w c) ((cl.conn a (r.loops cl.http.loop_).epoll).meets a
        cl.http.channel_.revents_) := called
    obtain ⟨ls, responses, run, along⟩ := Stream.handleEvents_failStop going there returns
    exact ⟨a, ls, responses, run, along⟩
  case closed => exact counted [] List.not_mem_nil
  case once => exact counted later silent
  case unlisted =>
    have ends := handleEvents_closes exit.1 exit.2
    have fd_ := (decided_frame (w c) (cl.conn a (r.loops cl.http.loop_).epoll)).fd_
    rw [chan, http, ends.fd2chan_, ends.fd2http_, fd_]
    exact ⟨update_self _ _ _, update_self _ _ _⟩
  case removed =>
    exact fun ℓ fd => ⟨severed.unlisted ℓ fd, fun entry =>
      severed.unlisted ℓ fd ((kept.step taken).sound.chan ℓ fd c entry)⟩
  case detached => exact severed.detached
  case idle => exact idle
  case silent => exact alone

/-- The event that brings a line which names no method. -/
def brew : Label := .handle 1 (bringing (bytes "BREW /pot HTTP/1.1\r\n"))

/-- The rest of the turn of the loop, with the timer node that is left of the connection. -/
def endTurn : List Label :=
  [.startFunctors 1, .endFunctors 1, .expire 1 0 (quietAt 0), .endExpire 1 ⟨0, 0⟩]

theorem fail_stop_brew : ∃ r r' r'' s, (machine fun _ => World.bare).exec new requested = some r ∧
    step (fun _ => World.bare) r brew = some r' ∧
    (machine fun _ => World.bare).exec r' endTurn = some r'' ∧
    r.handling brew = some (0, s) ∧ (handleEvents .bare s).http.error_ = true ∧
    FailStop (fun _ => World.bare) requested brew endTurn r' r'' 0 s := by
  obtain ⟨r, before, fails, goesOn⟩ := Machine.exec_any (M := machine fun _ => World.bare)
    (fun r => (r.handling brew).any (fun p => p.1 = 0 ∧ (handleEvents .bare p.2).http.error_) ∧
      ((machine fun _ => World.bare).exec r (brew :: endTurn)).isSome) new requested
    (by decide +kernel)
  obtain ⟨⟨c, s⟩, handled, found⟩ := (Option.any_eq_true _ _).mp fails
  obtain ⟨rfl, failed⟩ := of_decide_eq_true found
  obtain ⟨r'', run⟩ := Option.isSome_iff_exists.mp goesOn
  obtain ⟨r', taken, after⟩ := Option.bind_eq_some_iff.mp run
  have taken : step (fun _ => World.bare) r brew = some r' := taken
  exact ⟨r, r', r'', s, before, taken, after, handled, failed,
    (fail_stop before taken after).2 0 s handled failed⟩

end Reactor

end LightAgent

import LightAgent.Reactor.Timers

/-!
# Connections that nothing can close

`Watched` says that every connection in a table has a timeout. All exits of `handleConn`
keep it but one: with the peer gone and output left, the timer is dropped and neither the
poller nor the timers hear of the connection again.
-/
namespace LightAgent

open Library Function

namespace Reactor

/-- The step reaches `handleConn`, with this connection. -/
def entersHandleConn (w : ConnId → World) (r : Reactor) (l : Label) : Option Conn := do
  let (c, s) ← r.handling l
  if returnsEarly s.http.channel_.revents_ then none else some (dispatch (w c) (s.setEvents 0))

theorem entersHandleConn_handle {w : ConnId → World} {r : Reactor} {l : Label} {s : Conn}
    (entered : s ∈ r.entersHandleConn w l) : ∃ ℓ a, l = .handle ℓ a := by
  cases l with
  | handle ℓ a => exact ⟨ℓ, a, rfl⟩
  | _ => cases entered

/-- The connection with which `handleConn` is entered. -/
theorem entersHandleConn_eq {w : ConnId → World} {r : Reactor} {l : Label} {c : ConnId} {s : Conn}
    (handled : r.handling l = some (c, s)) : r.entersHandleConn w l =
      if returnsEarly s.http.channel_.revents_ then none
      else some (dispatch (w c) (s.setEvents 0)) := by
  unfold entersHandleConn
  rw [handled]
  rfl

/-- `handleConn` is entered with the peer gone and output left. -/
def Strands (w : ConnId → World) (r : Reactor) (l : Label) : Prop :=
  ∃ s ∈ r.entersHandleConn w l, s.http.OutputLeft

instance (w : ConnId → World) (r : Reactor) (l : Label) : Decidable (Strands w r l) :=
  inferInstanceAs (Decidable (∃ s ∈ r.entersHandleConn w l, _))

/-- `handleClose` has taken the connection out of the tables. -/
def Removed (r : Reactor) (c : ConnId) : Prop :=
  ∀ ℓ fd, (r.loops ℓ).epoll.fd2http_ fd ≠ some c ∧ (r.loops ℓ).epoll.fd2chan_ fd ≠ some c

/-- The connection is out of the tables, or some timeout can still close it. -/
def Guarded (r : Reactor) (c : ConnId) : Prop :=
  r.Removed c ∨ ∃ ℓ, (r.loops ℓ).epoll.timerManager_.Watches c

/-- After `handleEvents` and after `newEvent` the connection is guarded. -/
def NoLeak (r : Reactor) (l : Label) (r' : Reactor) : Prop :=
  match l with
  | .handle _ _ | .runFunctor _ _ => ∀ c ∈ r.subject l, r'.Guarded c
  | _ => True

/-- Every connection in a table has a timeout. -/
def Watched (r : Reactor) : Prop :=
  ∀ ℓ fd c, (r.loops ℓ).epoll.fd2http_ fd = some c → (r.loops ℓ).epoll.timerManager_.Watches c

theorem watched_new : new.Watched := by
  intro ℓ fd c entry
  cases entry

namespace Watched

variable {r : Reactor} {c : ConnId} {cl : Client} {a : Arrival} {s : Conn}

theorem guarded (watched : r.Watched) (sound : r.Sound) (c : ConnId) : r.Guarded c := by
  by_cases listed : ∃ ℓ fd, (r.loops ℓ).epoll.fd2http_ fd = some c
  · obtain ⟨ℓ, fd, entry⟩ := listed
    exact .inr ⟨ℓ, watched ℓ fd c entry⟩
  · refine .inl fun ℓ fd => ⟨fun entry => listed ⟨ℓ, fd, entry⟩, fun entry => ?_⟩
    exact listed ⟨ℓ, fd, sound.chan ℓ fd c entry⟩

/-- What a handler leaves behind, where all other connections are watched. -/
theorem store (watched : ∀ ℓ fd d, d ≠ c → (r.loops ℓ).epoll.fd2http_ fd = some d →
      (r.loops ℓ).epoll.timerManager_.Watches d)
    (sound : r.Sound) (alive : r.conns c = some cl)
    (effect : TableEffect (cl.conn a (r.loops cl.http.loop_).epoll) s)
    (others : ∀ d, d ≠ c → (r.loops cl.http.loop_).epoll.timerManager_.Watches d →
      s.epoll.timerManager_.Watches d)
    (own : s.epoll.fd2http_ cl.http.fd_ = some c → s.epoll.timerManager_.Watches c) :
    (r.store c s).Watched := by
  intro ℓ fd d entry
  have loop_ : s.http.loop_ = cl.http.loop_ := effect.loop_
  have stored : ((r.store c s).loops cl.http.loop_).epoll = s.epoll := by
    rw [← loop_, store_epoll]
  rcases sound.store_entry alive effect entry with ⟨rfl, rfl, rfl⟩ | ⟨same, old⟩
  · rw [stored] at entry ⊢
    exact own entry
  · by_cases here : ℓ = cl.http.loop_
    · subst here
      rw [stored]
      exact others d same (watched _ fd d same old)
    · rw [store_of_ne r c (loop_ ▸ here)]
      exact watched ℓ fd d same old

/-- `Watched` reads the entries and the queues of nodes. -/
theorem congr {r' : Reactor} (watched : r.Watched)
    (http : ∀ ℓ, (r'.loops ℓ).epoll.fd2http_ = (r.loops ℓ).epoll.fd2http_)
    (timers : ∀ ℓ, (r'.loops ℓ).epoll.timerManager_ = (r.loops ℓ).epoll.timerManager_) :
    r'.Watched := by
  intro ℓ fd c entry
  rw [http] at entry
  rw [timers]
  exact watched ℓ fd c entry

theorem setPoint (watched : r.Watched) (ℓ : LoopId) (point : LoopPoint) :
    (r.setPoint ℓ point).Watched :=
  watched.congr (fun ℓ' => by rw [setPoint_epoll]) fun ℓ' => by rw [setPoint_epoll]

theorem release (watched : r.Watched) (c : ConnId) : (r.release c).Watched :=
  watched.congr (fun ℓ => (release_loop r c ℓ).fd2http_) fun ℓ => (release_loop r c ℓ).timerManager_

end Watched

/-- Popping a node leaves the others. -/
theorem pop_watches {r : Reactor} {ℓ : LoopId} {id : TimerId} {d : ConnId} {ℓ' : LoopId}
    (other : ∀ node ∈ (r.loops ℓ).epoll.timerManager_.timerNodeQueue, node.SPHttpData = some d →
      node.id ≠ id) (watched : (r.loops ℓ').epoll.timerManager_.Watches d) :
    ((r.pop ℓ id).loops ℓ').epoll.timerManager_.Watches d := by
  by_cases same : ℓ' = ℓ
  · subst same
    obtain ⟨node, queued, alive, refers⟩ := watched
    rw [pop, setEpoll_epoll]
    -- Names of nodes are unique, so the node that watches `d` is not the one that goes.
    refine ⟨node, List.mem_filter.mpr ⟨queued, ?_⟩, alive, refers⟩
    exact decide_eq_true (other node queued refers)
  · rw [pop, setEpoll_of_ne r ℓ same]
    exact watched

/-- A step keeps `Watched` unless it strands a connection. -/
theorem Watched.step {w : ConnId → World} {r r' : Reactor} {l : Label} (watched : r.Watched)
    (sound : r.Sound) (timed : r.Timed) (taken : Reactor.step w r l = some r')
    (kept : ¬Strands w r l) : r'.Watched := by
  cases step_steps taken with
  | accept fd ℓ nonBlocking _ _ =>
    exact watched.congr (fun ℓ' => by rw [acceptConn_epoll]) fun ℓ' => by rw [acceptConn_epoll]
  | accepted c _ =>
    have local_ : Watched { r with req_info := none } := watched
    exact local_.release c
  | poll ℓ events woken _ _ =>
    have loops := reports_loop r ℓ events
    have reported : Watched (events.foldl (Reactor.report ℓ) r) :=
      watched.congr (fun ℓ' => (loops ℓ').fd2http_) fun ℓ' => (loops ℓ').timerManager_
    exact reported.setPoint ℓ _
  | handle ℓ a c ret r₁ point called =>
    obtain ⟨cl, alive, rfl, entry, handled, _, _, rfl⟩ := sound.handle_inv point called
    have next := sound.nextHandler point
    obtain ⟨this, holder, _⟩ := sound.named c cl alive
    have held : cl.http.channel_.holder_ = some cl.http.this :=
      holder.trans (congrArg some this.symm)
    have found := timed.conn sound alive a
    -- The other connections keep their timers; this one has been given a new one or is gone.
    refine (store (a := a) (fun ℓ fd d _ => watched.setPoint _ _ ℓ fd d) next alive ?_ ?_ ?_).release c
    · rw [setPoint_epoll]
      exact handleEvents_effect (w c) _
    · intro d other watches
      rw [setPoint_epoll] at watches
      exact handleEvents_watches (w c) found (this ▸ other) watches
    · intro stays
      cases handleEvents_handled (w c) (cl.conn a (r.loops cl.http.loop_).epoll) with
      | ignored _ eq =>
        rw [eq]
        exact watched _ _ c entry
      | rearmed events timeout _ _ _ modified =>
        have watches := (rearmed_timed (w c) found held modified).2
        exact this ▸ watches
      | stranded heard exit _ =>
        -- This exit is the one the guard of the run rules out.
        refine absurd ⟨_, ?_, decided_strands.mp exit⟩ kept
        rw [entersHandleConn_eq handled]
        exact if_neg (Bool.eq_false_iff.mp heard)
      | closed _ _ closed =>
        have gone : (handleEvents (w c) (cl.conn a (r.loops cl.http.loop_).epoll)).epoll.fd2http_
            cl.http.fd_ = none := by
          rw [closed.fd2http_, (decided_frame _ _).fd_]
          exact update_self _ _ _
        cases gone.symm.trans stays
  | startFunctors ℓ _ =>
    exact watched.congr (fun ℓ' => by rw [swapFunctors_epoll]) fun ℓ' => by rw [swapFunctors_epoll]
  | runFunctor ℓ a done c rest r₁ point called =>
    obtain ⟨cl, alive, rfl, waits, _, _, rfl⟩ := sound.functor_inv point called
    obtain ⟨this, holder, _⟩ := sound.named c cl alive
    refine store (a := a) (fun ℓ fd d _ => watched.setPoint _ _ ℓ fd d) (sound.nextFunctor point)
      alive ?_ ?_ fun _ => ?_
    · rw [setPoint_epoll]
      exact newEvent_effect _
    · intro d _ watches
      rw [setPoint_epoll] at watches
      exact newEvent_watches watches
    -- A connection that enters its loop has had no timer before.
    · have unlinked := (links_own alive).symm.trans (timed.fresh _ c waits)
      have held := holder.trans (congrArg some this.symm)
      exact this ▸ (newEvent_timed (timed.conn sound alive a) unlinked held).2
  | endFunctors ℓ done _ =>
    have loops := releases_loop (r.setPoint ℓ .expiring) done
    exact (watched.setPoint ℓ .expiring).congr (fun ℓ' => (loops ℓ').fd2http_) fun ℓ' => (loops ℓ').timerManager_
  | drop ℓ a node _ found idle =>
    intro ℓ' fd d entry
    rw [pop_fd2http_] at entry
    -- The node was a neutralised one, so no connection has lost its timer.
    refine pop_watches (fun other queued refers same => ?_) (watched ℓ' fd d entry)
    have popped := timed.only found queued same
    cases refers.symm.trans (popped ▸ idle)
  | close ℓ a node c r₁ point found refers called =>
    obtain ⟨cl, alive, rfl, _, rfl⟩ := sound.close_inv point found refers called
    -- The node was that of `c`, which leaves the table with it.
    have popped (ℓ' : LoopId) (fd : Fd) (d : ConnId) (other : d ≠ c)
        (entry : ((r.pop cl.http.loop_ node.id).loops ℓ').epoll.fd2http_ fd = some d) :
        ((r.pop cl.http.loop_ node.id).loops ℓ').epoll.timerManager_.Watches d := by
      rw [pop_fd2http_] at entry
      refine pop_watches (fun n queued refers' same => ?_) (watched ℓ' fd d entry)
      have eq := timed.only found queued same
      exact other (Option.some.inj (refers'.symm.trans (eq ▸ refers)))
    have closed (s : Conn) := handleClose_closed s
    refine (store popped (sound.pop _ node.id) alive (closed _).effect ?_ fun stays => ?_).release c
    · intro d _ watches
      rw [(closed _).timers.timerManager_]
      exact watches
    · have gone := (closed (cl.conn a ((r.pop cl.http.loop_ node.id).loops cl.http.loop_).epoll)).fd2http_
      rw [gone] at stays
      cases (update_self _ _ _).symm.trans stays
  | endExpire ℓ now _ => exact watched.setPoint ℓ .polling

/-! ### The branch that forgets the connection -/

/-- A stranded connection stays in the table, and no timer refers to it. -/
theorem strands_leaks {w : ConnId → World} {r r' : Reactor} {l : Label} (sound : r.Sound)
    (timed : r.Timed) (taken : step w r l = some r') (strands : Strands w r l) :
    ¬NoLeak r l r' := by
  obtain ⟨s, entered, left_⟩ := strands
  obtain ⟨ℓ, a, rfl⟩ := entersHandleConn_handle entered
  cases step_steps taken with
  | handle _ _ c ret r₁ point called =>
    obtain ⟨cl, alive, rfl, entry, handled, _, _, rfl⟩ := sound.handle_inv point called
    intro noLeak
    let s₀ := cl.conn a (r.loops cl.http.loop_).epoll
    -- The handler leaves the entry, and has dropped the timer.
    have stranded : returnsEarly s₀.http.channel_.revents_ = false ∧
        (decided (w c) s₀).http.connExit = .strands := by
      rw [entersHandleConn_eq handled] at entered
      cases early : returnsEarly s₀.http.channel_.revents_ with
      | true => cases (if_pos early).symm.trans entered
      | false =>
        cases (if_neg (Bool.eq_false_iff.mp early)).symm.trans entered
        exact ⟨rfl, decided_strands.mpr left_⟩
    have after : handleEvents (w c) s₀ = (decided (w c) s₀).setEvents (EPOLLOUT ||| EPOLLET) := by
      cases handleEvents_handled (w c) s₀ with
      | ignored early _ => cases early.symm.trans stranded.1
      | rearmed _ _ _ exit _ _ => cases exit.symm.trans stranded.2
      | stranded _ _ eq => exact eq
      | closed _ exit _ => cases exit.symm.trans stranded.2
    have named := (sound.named c cl alive).1
    have frame := decided_frame (w c) s₀
    have loop_ : (handleEvents (w c) s₀).http.loop_ = cl.http.loop_ := by
      rw [after]; exact frame.loop_
    have detached := (decided_timed (w c) (timed.conn sound alive a)).2
    have subject : r.subject (.handle cl.http.loop_ a) = some c := by
      simp [subject, point, LoopPoint.ret]
    generalize next : (r.setPoint cl.http.loop_ (.handling ret)).store c
      (handleEvents (w c) s₀) = r₁ at taken noLeak
    have epoll : (r₁.loops cl.http.loop_).epoll = (decided (w c) s₀).epoll := by
      rw [← next, ← loop_, store_epoll, after]
      rfl
    -- Neither way out of a leak is open: the entry is there, and its node was neutralised.
    rcases noLeak c subject with removed | ⟨ℓ', watched⟩
    · apply (removed cl.http.loop_ cl.http.fd_).1
      rw [(release_loop r₁ c _).fd2http_, epoll, frame.fd2http_]
      exact entry
    · rw [(release_loop r₁ c ℓ').timerManager_] at watched
      obtain ⟨node, queued, _, refers⟩ := watched
      by_cases here : ℓ' = cl.http.loop_
      · subst here
        rw [epoll] at queued
        exact detached node queued (refers.trans (congrArg some named.symm))
      · rw [← next, store_of_ne _ c (loop_ ▸ here), setPoint_epoll] at queued
        -- No other loop has a node that refers to a connection of this one.
        exact here (Sound.lives_unique (sound.timers ℓ' node queued c refers) ⟨cl, alive, rfl⟩)

/-- In a run nothing leaks exactly as long as `handleConn` is never entered with the peer
gone and output left. -/
theorem no_leak_iff (w : ConnId → World) (ls : List Label) :
    (machine w).Along NoLeak new ls ↔ (machine w).Along (fun r l _ => ¬Strands w r l) new ls := by
  apply Machine.along_iff (I := fun r => r.Sound ∧ r.Timed ∧ r.Watched)
  · rintro r l r' _ ⟨sound, timed, watched⟩ taken
    constructor
    · exact fun noLeak strands => strands_leaks sound timed taken strands noLeak
    · intro kept
      -- `Watched` gives what `NoLeak` asks of the subject of the step, and more.
      have guarded := (watched.step sound timed taken kept).guarded (sound.step r l r' taken)
      cases l with
      | handle ℓ a => exact fun c _ => guarded c
      | runFunctor ℓ a => exact fun c _ => guarded c
      | _ => trivial
  · rintro r l r' _ ⟨sound, timed, watched⟩ taken kept
    exact ⟨sound.step r l r' taken, timed.step sound taken, watched.step sound timed taken kept⟩
  · exact ⟨sound_new, timed_new, watched_new⟩

/-- A request and the end of the stream in one event, while the socket takes five bytes
of the answer. -/
def halfClose : Arrival where
  reads := [.data 71 (bytes "ET /hello HTTP/1.1\r\nA: b\r\n\r\n"), .eof]
  writes := [.accepted 5, .eagain]
  now := ⟨0, 0⟩
  epollCtl := true

/-- A connection that sends a request and closes its side. -/
def requested : List Label := entering 5 1 ++ [.endExpire 1 ⟨0, 0⟩,
  .poll 1 [(5, ⟨true, false, false, false⟩)] false]

theorem half_close_leaks : ¬∀ ls, (machine fun _ => World.bare).Along NoLeak new ls := by
  intro always
  obtain ⟨r, run, strands, enabled⟩ := Machine.exec_any (M := machine fun _ => World.bare)
    (fun r => Strands (fun _ => World.bare) r (.handle 1 halfClose) ∧
      (step (fun _ => World.bare) r (.handle 1 halfClose)).isSome = true)
    new requested (by decide +kernel)
  have allowed : (machine fun _ => World.bare).Along (fun _ _ _ => True) new requested := by
    decide +kernel
  have reached := Machine.reachable_exec (.init rfl) allowed run
  obtain ⟨r', taken⟩ := Option.isSome_iff_exists.mp enabled
  have last := Machine.along_append run (always (requested ++ [.handle 1 halfClose]))
  rw [Machine.along_singleton taken] at last
  exact strands_leaks (reachable_sound reached) (reachable_timed reached) taken strands last

end Reactor
end LightAgent

import LightAgent.HttpData.Registration
import LightAgent.Reactor.Leaks

/-!
# Registrations of the connections in the tables

`Listening` says what the kernel has of each connection in a table, while `epoll_ctl`
succeeds. The exit of `handleConn` that does not tell the poller breaks it where it
matters: after the first event, or with output that nobody asked to write.
-/
namespace LightAgent

open Library Function

/-- A report is of something, so a channel that is handed out has work. -/
theorem Ready.Within.heard {ready : Ready} {mask : Events} (within : ready.Within mask) :
    Heard ready.events := by
  obtain ⟨readable, writable, failed, hungUp⟩ := ready
  have some_ := within.some_
  revert some_
  clear within
  unfold Heard Ready.events
  revert readable writable failed hungUp
  decide

/-- An event of a lasting registration leaves it enabled. -/
theorem Channel.Known.fire {channel_ : Channel} {reg : Option Registration}
    (known : channel_.Known reg) : channel_.Known (reg.map Reactor.Registration.fire) := by
  obtain ⟨enabled, rfl, first | ⟨rfl, mask⟩⟩ := known
  · exact ⟨_, rfl, .inl first⟩
  · refine ⟨true, ?_, .inr ⟨rfl, mask⟩⟩
    have lasting : channel_.lastEvents_.has EPOLLONESHOT = false := by
      rcases mask with eq | eq <;> rw [eq] <;> decide
    simp [Reactor.Registration.fire, lasting]

namespace Reactor

/-- The kernel has every connection in a table as its channel says, one that waits is as it
was made, and one that is to be handled has something to read or to write. -/
structure Listening (r : Reactor) : Prop where
  entry : ∀ ℓ fd c cl, (r.loops ℓ).epoll.fd2http_ fd = some c → r.conns c = some cl →
    cl.http.Registered ((r.loops ℓ).epoll.interest fd)
  fresh : ∀ ℓ, ∀ c ∈ (r.loops ℓ).point.waiting ++ (r.loops ℓ).pendingFunctors_, ∀ cl,
    r.conns c = some cl → cl.http.connectionState_ ≠ .disconnected ∧ cl.http.outBuffer_ = []
  heard : ∀ ℓ, ∀ c ∈ (r.loops ℓ).point.ret, ∀ cl, r.conns c = some cl →
    Heard cl.http.channel_.revents_

theorem listening_new : new.Listening where
  entry _ _ _ _ entry := by cases entry
  fresh _ _ waits := by cases waits
  heard _ _ member := by cases member

namespace Listening

variable {r : Reactor} {c : ConnId} {cl : Client} {a : Arrival} {s : Conn}

/-- What a handler leaves behind, of a connection that waits for nothing. -/
theorem store (listening : r.Listening) (sound : r.Sound) (alive : r.conns c = some cl)
    (effect : TableEffect (cl.conn a (r.loops cl.http.loop_).epoll) s)
    (others : ∀ fd, fd ≠ cl.http.fd_ →
      s.epoll.interest fd = (r.loops cl.http.loop_).epoll.interest fd)
    (own : s.epoll.fd2http_ cl.http.fd_ = some c → s.http.Registered (s.epoll.interest cl.http.fd_))
    (idle : ∀ ℓ, c ∉ (r.loops ℓ).point.ret)
    (gone : ∀ ℓ, c ∉ (r.loops ℓ).point.waiting ++ (r.loops ℓ).pendingFunctors_) :
    (r.store c s).Listening := by
  have loop_ : s.http.loop_ = cl.http.loop_ := effect.loop_
  have stored : ((r.store c s).loops cl.http.loop_).epoll = s.epoll := by
    rw [← loop_, store_epoll]
  have point (ℓ) : ((r.store c s).loops ℓ).point = (r.loops ℓ).point := setEpoll_point r _ _ ℓ
  have pending (ℓ) : ((r.store c s).loops ℓ).pendingFunctors_ = (r.loops ℓ).pendingFunctors_ :=
    setEpoll_pending r _ _ ℓ
  have same {d dl} (other : d ≠ c) (alive' : (r.store c s).conns d = some dl) :
      r.conns d = some dl := (update_of_ne other _ _).symm.trans alive'
  constructor
  case entry =>
    intro ℓ fd d dl entry alive'
    -- The only entry of the connection is that of its own loop and descriptor.
    rcases sound.store_entry alive effect entry with ⟨rfl, rfl, rfl⟩ | ⟨this, old⟩
    · have kept : (r.store d s).conns d = some ⟨s.http, s.wire⟩ := update_self _ _ _
      cases kept.symm.trans alive'
      rw [stored] at entry ⊢
      exact own entry
    · have registered := listening.entry ℓ fd d dl old (same this alive')
      by_cases here : ℓ = cl.http.loop_
      · subst here
        -- Another connection has another descriptor, whose registration the handler has not
        -- changed.
        have elsewhere : fd ≠ cl.http.fd_ := fun eq =>
          this (sound.own_entry alive (eq ▸ old))
        rw [stored, others fd elsewhere]
        exact registered
      · rw [store_of_ne r c (loop_ ▸ here)]
        exact registered
  case fresh =>
    intro ℓ d waits dl alive'
    rw [point, pending] at waits
    exact listening.fresh ℓ d waits dl (same (fun this => gone ℓ (this ▸ waits)) alive')
  case heard =>
    intro ℓ d member dl alive'
    rw [point] at member
    exact listening.heard ℓ d member dl (same (fun this => idle ℓ (this ▸ member)) alive')

/-- A loop goes on to another point. -/
theorem setPoint (listening : r.Listening) {ℓ : LoopId} {point : LoopPoint}
    (waiting : point.waiting ⊆ (r.loops ℓ).point.waiting)
    (heard : ∀ c ∈ point.ret, ∀ cl, r.conns c = some cl → Heard cl.http.channel_.revents_) :
    (r.setPoint ℓ point).Listening := by
  constructor
  case entry =>
    intro ℓ' fd c cl entry
    rw [setPoint_epoll] at entry ⊢
    exact listening.entry ℓ' fd c cl entry
  case fresh =>
    intro ℓ' c waits
    exact listening.fresh ℓ' c (setPoint_waits r ℓ waiting ℓ' waits)
  case heard =>
    intro ℓ' c member
    by_cases same : ℓ' = ℓ
    · subst same
      rw [setPoint_point] at member
      exact heard c member
    · rw [setPoint_of_ne r ℓ same] at member
      exact listening.heard ℓ' c member

/-- Destroying a connection forgets its own registration only. -/
theorem release (listening : r.Listening) (sound : r.Sound) (c : ConnId) :
    (r.release c).Listening := by
  have loops := release_loop r c
  rcases release_conns r c with stays | ⟨cl, alive, conns, interest⟩
  · rw [stays]
    exact listening
  · have before {d dl} (alive' : (r.release c).conns d = some dl) : d ≠ c ∧ r.conns d = some dl :=
      of_update_none (conns ▸ alive')
    constructor
    case entry =>
      intro ℓ fd d dl entry alive'
      rw [(loops ℓ).fd2http_] at entry
      obtain ⟨other, alive'⟩ := before alive'
      -- Closing a descriptor forgets its registration, and that is one of no other connection.
      have elsewhere : fd ≠ cl.http.fd_ := fun same => other (sound.own_entry alive (same ▸ entry))
      rw [interest ℓ fd elsewhere]
      exact listening.entry ℓ fd d dl entry alive'
    case fresh =>
      intro ℓ d waits dl alive'
      rw [(loops ℓ).pendingFunctors_, (loops ℓ).point] at waits
      exact listening.fresh ℓ d waits dl (before alive').2
    case heard =>
      intro ℓ d member dl alive'
      rw [(loops ℓ).point] at member
      exact listening.heard ℓ d member dl (before alive').2

/-- Handing out one event. -/
theorem report (listening : r.Listening) (ℓ : LoopId) {e : Fd × Ready}
    {mask : Events} (within : e.2.Within mask) : (Reactor.report ℓ r e).Listening := by
  have same (ℓ' : LoopId) := report_loop r ℓ e ℓ'
  constructor
  case entry =>
    intro ℓ' fd d dl entry alive
    rw [(same ℓ').fd2http_] at entry
    obtain ⟨old, alive', changed⟩ := report_some r ℓ alive
    have registered := listening.entry ℓ' fd d old entry alive'
    -- The event uses up a one-shot registration, which the channel knows of.
    have known : old.http.channel_.Known (((Reactor.report ℓ r e).loops ℓ').epoll.interest fd) := by
      rw [report_interest]
      split
      · exact registered.known.fire
      · exact registered.known
    rcases changed with rfl | rfl
    · exact ⟨registered.here, known, registered.output⟩
    · exact ⟨registered.here, known, registered.output⟩
  case fresh =>
    intro ℓ' d waits dl alive
    rw [(same ℓ').pendingFunctors_, (same ℓ').point] at waits
    obtain ⟨old, alive', rfl | rfl⟩ := report_some r ℓ alive
    · exact listening.fresh ℓ' d waits dl alive'
    · exact listening.fresh ℓ' d waits old alive'
  case heard =>
    intro ℓ' d member dl alive
    rw [(same ℓ').point] at member
    obtain ⟨old, alive', rfl | rfl⟩ := report_some r ℓ alive
    · exact listening.heard ℓ' d member dl alive'
    · exact within.heard

/-- Once its event is handed out a connection has something to read or to write, whatever
else is reported. -/
theorem reports_heard (ℓ : LoopId) {events : List (Fd × Ready)}
    (within : ∀ e ∈ events, ∃ mask, e.2.Within mask) {c : ConnId}
    (heard : (∀ cl, r.conns c = some cl → Heard cl.http.channel_.revents_) ∨
      ∃ e ∈ events, (r.loops ℓ).epoll.fd2chan_ e.1 = some c) :
    ∀ cl, (events.foldl (Reactor.report ℓ) r).conns c = some cl →
      Heard cl.http.channel_.revents_ := by
  induction events generalizing r with
  | nil =>
    rcases heard with now | ⟨e, member, _⟩
    · exact now
    · cases member
  | cons e events ih =>
    obtain ⟨mask, first⟩ := within e (List.mem_cons_self ..)
    apply ih (fun e member => within e (List.mem_cons_of_mem _ member))
    -- The first event is that of `c`, or `c` has been told of one already or will be.
    by_cases listed : (r.loops ℓ).epoll.fd2chan_ e.1 = some c
    · refine .inl fun cl alive => ?_
      rw [report_conns, if_pos listed] at alive
      obtain ⟨old, _, rfl⟩ := Option.map_eq_some_iff.mp alive
      exact first.heard
    · rcases heard with now | ⟨other, member, entry⟩
      · refine .inl fun cl alive => ?_
        rw [report_conns, if_neg listed] at alive
        exact now cl alive
      · rcases List.mem_cons.mp member with rfl | later
        · exact absurd entry listed
        · exact .inr ⟨other, later, by rw [(report_loop r ℓ e ℓ).fd2chan_]; exact entry⟩

theorem poll (listening : r.Listening) {ℓ : LoopId} {events : List (Fd × Ready)}
    (within : ∀ e ∈ events, ∃ mask, e.2.Within mask) (woken : Bool) :
    (r.pollEvents ℓ events woken).Listening := by
  have reported : (events.foldl (Reactor.report ℓ) r).Listening := by
    clear woken
    induction events generalizing r with
    | nil => exact listening
    | cons e events ih =>
      obtain ⟨mask, first⟩ := within e (List.mem_cons_self ..)
      exact ih (listening.report ℓ first) fun e member => within e (List.mem_cons_of_mem _ member)
  unfold pollEvents
  dsimp only
  split
  · exact reported.setPoint (List.nil_subset _) nofun
  · refine reported.setPoint (List.nil_subset _) fun c member => ?_
    obtain ⟨e, member, entry⟩ := List.mem_filterMap.mp member
    exact reports_heard ℓ within (.inr ⟨e, member, entry⟩)

theorem pop (listening : r.Listening) (ℓ : LoopId) (id : TimerId) : (r.pop ℓ id).Listening := by
  constructor
  case entry =>
    intro ℓ' fd c cl entry
    rw [pop_fd2http_] at entry
    rw [pop_interest]
    exact listening.entry ℓ' fd c cl entry
  case fresh =>
    intro ℓ' c waits
    rw [Reactor.pop, setEpoll_pending, setEpoll_point] at waits
    exact listening.fresh ℓ' c waits
  case heard =>
    intro ℓ' c member
    rw [Reactor.pop, setEpoll_point] at member
    exact listening.heard ℓ' c member

/-- A new connection is as its constructor leaves it. -/
theorem accept (listening : r.Listening) (sound : r.Sound) (fd : Fd) (ℓ : LoopId)
    (nonBlocking : Bool) : (r.acceptConn fd ℓ nonBlocking).Listening := by
  have before {d dl} (alive : (r.acceptConn fd ℓ nonBlocking).conns d = some dl) :
      r.conns d = some dl ∨ (d = r.nextConn ∧ dl = ⟨.new r.nextConn ℓ fd, .idle⟩) := by
    rcases acceptConn_conns r ℓ fd nonBlocking with same | new
    · rw [same] at alive
      exact .inl alive
    · rcases of_update_some (new ▸ alive) with made | ⟨_, old⟩
      · exact .inr made
      · exact .inl old
  constructor
  case entry =>
    intro ℓ' fd' d dl entry alive
    rw [acceptConn_epoll] at entry ⊢
    rcases before alive with old | ⟨rfl, _⟩
    · exact listening.entry ℓ' fd' d dl entry old
    -- No table knows the new connection yet.
    · obtain ⟨cl, alive', _⟩ := sound.http ℓ' fd' _ entry
      exact absurd (sound.named _ cl alive').2.2 (Nat.lt_irrefl _)
  case fresh =>
    intro ℓ' d waits dl alive
    rcases before alive with old | ⟨_, rfl⟩
    · rcases acceptConn_waits r ℓ fd nonBlocking waits with waits | rfl
      · exact listening.fresh ℓ' d waits dl old
      · exact absurd (sound.named _ dl old).2.2 (Nat.lt_irrefl _)
    · exact ⟨nofun, rfl⟩
  case heard =>
    intro ℓ' d member dl alive
    rw [acceptConn_point] at member
    rcases before alive with old | ⟨rfl, _⟩
    · exact listening.heard ℓ' d member dl old
    · obtain ⟨fd', entry⟩ := (sound.ret ℓ').2 _ member
      obtain ⟨cl, alive', _⟩ := sound.http ℓ' fd' _ entry
      exact absurd (sound.named _ cl alive').2.2 (Nat.lt_irrefl _)

theorem swap (listening : r.Listening) {ℓ : LoopId} (point : (r.loops ℓ).point = .handling []) :
    (r.swapFunctors ℓ).Listening := by
  constructor
  case entry =>
    intro ℓ' fd c cl entry
    rw [swapFunctors_epoll] at entry ⊢
    exact listening.entry ℓ' fd c cl entry
  case fresh =>
    intro ℓ' c waits
    refine listening.fresh ℓ' c ?_
    by_cases same : ℓ' = ℓ
    · subst same
      rw [point]
      simpa [swapFunctors, LoopPoint.waiting] using waits
    · simpa [swapFunctors, same] using waits
  case heard =>
    intro ℓ' c member
    refine listening.heard ℓ' c ?_
    by_cases same : ℓ' = ℓ
    · subst same
      simp [swapFunctors, LoopPoint.ret] at member
    · simpa [swapFunctors, same] using member

theorem releases (listening : r.Listening) (sound : r.Sound) (cs : List ConnId) :
    (cs.foldl Reactor.release r).Listening := by
  induction cs generalizing r with
  | nil => exact listening
  | cons c cs ih => exact ih (listening.release sound c) (sound.release c)

end Listening

/-! ### A step -/

/-- The calls of `epoll_ctl` in the handler succeed. -/
def Label.Succeeds : Label → Prop
  | .handle _ a | .runFunctor _ a | .expire _ _ a => a.epollCtl = true
  | _ => True

instance (l : Label) : Decidable l.Succeeds := by
  cases l <;> unfold Label.Succeeds <;> infer_instance

/-- Where `handleConn` is entered with the peer gone and output left, the registration is
not the first one any more and asks for output if there is some. -/
def StaysArmed (w : ConnId → World) (r : Reactor) (l : Label) : Prop :=
  ∀ s ∈ r.entersHandleConn w l, s.http.StaysArmed

instance (w : ConnId → World) (r : Reactor) (l : Label) : Decidable (StaysArmed w r l) :=
  inferInstanceAs (Decidable (∀ s ∈ r.entersHandleConn w l, _))

/-- A call of `handleEvents` that reaches `handleConn` and leaves the connection in a table
leaves it armed. -/
def LeavesArmed (r : Reactor) (l : Label) (r' : Reactor) : Prop :=
  ∀ c s, r.handling l = some (c, s) → returnsEarly s.http.channel_.revents_ = false →
    ∀ ℓ fd, (r'.loops ℓ).epoll.fd2http_ fd = some c →
      ∃ cl, r'.conns c = some cl ∧ cl.http.Armed ((r'.loops ℓ).epoll.interest fd)

/-- A step keeps `Listening` where `epoll_ctl` succeeds and connections stay armed. -/
theorem Listening.step {w : ConnId → World} {r r' : Reactor} {l : Label}
    (listening : r.Listening) (sound : r.Sound) (timed : r.Timed) (succeeds : l.Succeeds)
    (taken : Reactor.step w r l = some r') (kept : StaysArmed w r l) : r'.Listening := by
  cases step_steps taken with
  | accept fd ℓ nonBlocking _ _ => exact listening.accept sound fd ℓ nonBlocking
  | accepted c _ =>
    have local_ : Listening { r with req_info := none } :=
      ⟨listening.entry, listening.fresh, listening.heard⟩
    exact local_.release sound.forget c
  | poll ℓ events woken _ reported =>
    refine listening.poll (fun e member => ?_) woken
    obtain ⟨reg, _, _, within⟩ := reported.2 e member
    exact ⟨reg.mask, within⟩
  | handle ℓ a c ret r₁ point called =>
    obtain ⟨cl, alive, rfl, entry, handled, idle, settled, rfl⟩ := sound.handle_inv point called
    have next := sound.nextHandler point
    -- The channels that are left have been told of their events too.
    have later : (r.setPoint cl.http.loop_ (.handling ret)).Listening := by
      refine listening.setPoint (List.nil_subset _) fun d member => ?_
      exact listening.heard cl.http.loop_ d (by rw [point]; exact List.mem_cons_of_mem _ member)
    have stored : ((r.setPoint cl.http.loop_ (.handling ret)).store c
        (handleEvents (w c) (cl.conn a (r.loops cl.http.loop_).epoll))).Listening := by
      refine later.store (a := a) next alive ?_ ?_ (fun stays => ?_) idle settled
      · rw [setPoint_epoll]
        exact handleEvents_effect (w c) _
      · intro fd other
        rw [setPoint_epoll]
        exact handleEvents_others (w c) _ other
      -- What the handler meets: a known registration, an event it can hear, and the guard.
      · refine handleEvents_registered succeeds (listening.entry _ _ c cl entry alive) ?_ ?_ stays
        · exact listening.heard cl.http.loop_ c (by rw [point]; exact List.mem_cons_self ..) cl alive
        · intro early
          refine kept _ ?_
          rw [entersHandleConn_eq handled]
          exact if_neg (Bool.eq_false_iff.mp early)
    refine stored.release (next.store (a := a) alive ?_ idle fun _ => .inr settled) c
    rw [setPoint_epoll]
    exact handleEvents_effect (w c) _
  | startFunctors ℓ point => exact listening.swap point
  | runFunctor ℓ a done c rest r₁ point called =>
    obtain ⟨cl, alive, rfl, waits, idle, settled, rfl⟩ := sound.functor_inv point called
    obtain ⟨here, empty⟩ := listening.fresh _ c waits cl alive
    have later : (r.setPoint cl.http.loop_ (.functors (done ++ [c]) rest)).Listening :=
      listening.setPoint (by rw [point]; exact List.subset_cons_self c rest)
        fun _ member => absurd member List.not_mem_nil
    refine later.store (a := a) (sound.nextFunctor point) alive ?_ ?_
      (fun _ => newEvent_registered succeeds here empty) idle settled
    · rw [setPoint_epoll]
      exact newEvent_effect _
    · intro fd other
      rw [setPoint_epoll]
      exact newEvent_others _ other
  | endFunctors ℓ done _ =>
    have later : (r.setPoint ℓ .expiring).Listening :=
      listening.setPoint (List.nil_subset _) fun _ member => absurd member List.not_mem_nil
    exact later.releases (sound.rest ℓ rfl rfl) done
  | drop ℓ a node _ _ _ => exact listening.pop ℓ node.id
  | close ℓ a node c r₁ point found refers called =>
    obtain ⟨cl, alive, rfl, idle, rfl⟩ := sound.close_inv point found refers called
    have popped := sound.pop cl.http.loop_ node.id
    have closed := handleClose_closed
      (cl.conn a ((r.pop cl.http.loop_ node.id).loops cl.http.loop_).epoll)
    -- `handleClose` takes the connection out of the table, so nothing is asked of it any more.
    have gone : (handleClose (cl.conn a ((r.pop cl.http.loop_ node.id).loops
        cl.http.loop_).epoll)).epoll.fd2http_ cl.http.fd_ ≠ some c := by
      rw [closed.fd2http_]
      exact fun stays => Option.some_ne_none c (stays.symm.trans (update_self _ _ _))
    have settled : ∀ ℓ', c ∉ ((r.pop cl.http.loop_ node.id).loops ℓ').point.waiting ++
        ((r.pop cl.http.loop_ node.id).loops ℓ').pendingFunctors_ := by
      refine popped.settled alive fun waits => ?_
      rw [Reactor.pop, setEpoll_pending, setEpoll_point] at waits
      exact timed.settled (List.mem_of_find?_eq_some found) refers waits
    exact ((listening.pop _ node.id).store popped alive closed.effect
      (fun _ other => closed.others other) (fun stays => absurd stays gone) idle settled).release
      (popped.store alive closed.effect idle fun stays => absurd stays gone) c
  | endExpire ℓ now _ =>
    exact listening.setPoint (List.nil_subset _) fun _ member => absurd member List.not_mem_nil

/-- A handler leaves a connection armed exactly where it stays armed. -/
theorem leavesArmed_iff {w : ConnId → World} {r r' : Reactor} {l : Label}
    (listening : r.Listening) (sound : r.Sound) (succeeds : l.Succeeds)
    (taken : step w r l = some r') : LeavesArmed r l r' ↔ StaysArmed w r l := by
  have sound' : r'.Sound := sound.step r l r' taken
  cases l with
  | handle ℓ a =>
    cases step_steps taken with
    | handle _ _ c ret r₁ point called =>
      obtain ⟨cl, alive, rfl, entry, handled, _, _, rfl⟩ := sound.handle_inv point called
      let s₀ := cl.conn a (r.loops cl.http.loop_).epoll
      -- The step handles one connection only.
      have only {d s} (other : r.handling (.handle cl.http.loop_ a) = some (d, s)) :
          d = c ∧ s = s₀ := by
        cases handled.symm.trans other
        exact ⟨rfl, rfl⟩
      have entered := entersHandleConn_eq (w := w) handled
      cases early : returnsEarly s₀.http.channel_.revents_ with
      | true =>
        -- The event is one that `handleEvents` ignores, and neither side asks anything.
        refine iff_of_true (fun d s other taken => ?_) fun s enters => ?_
        · obtain ⟨_, rfl⟩ := only other
          cases early.symm.trans taken
        · rw [entered] at enters
          cases (if_pos early).symm.trans enters
      | false =>
        have enters : r.entersHandleConn w (.handle cl.http.loop_ a) =
            some (dispatch (w c) (s₀.setEvents 0)) :=
          entered.trans (if_neg (Bool.eq_false_iff.mp early))
        have stays : StaysArmed w r (.handle cl.http.loop_ a) ↔
            (dispatch (w c) (s₀.setEvents 0)).http.StaysArmed := by
          unfold StaysArmed
          rw [enters]
          exact ⟨fun all => all _ rfl, fun holds s is => Option.some.inj is ▸ holds⟩
        rw [stays]
        -- The event reaches `handleConn`, and both sides speak of how that leaves the channel.
        have heard : Heard s₀.http.channel_.revents_ :=
          listening.heard cl.http.loop_ c (by rw [point]; exact List.mem_cons_self ..) cl alive
        have effect := handleEvents_effect (w c) s₀
        have loop_ : (handleEvents (w c) s₀).http.loop_ = cl.http.loop_ := effect.loop_
        have fd_ : (handleEvents (w c) s₀).http.fd_ = cl.http.fd_ := effect.fd_
        generalize next : (r.setPoint cl.http.loop_ (.handling ret)).store c
          (handleEvents (w c) s₀) = r₁ at sound' ⊢
        have epoll : (r₁.loops cl.http.loop_).epoll = (handleEvents (w c) s₀).epoll := by
          rw [← next, ← loop_, store_epoll]
        have own : r₁.conns c = some ⟨(handleEvents (w c) s₀).http, (handleEvents (w c) s₀).wire⟩ := by
          rw [← next]
          exact update_self _ _ _
        rcases handleEvents_armed (s := s₀) (w := w c) succeeds
          (listening.entry _ _ c cl entry alive) heard early with ⟨gone, holds⟩ | ⟨kept, _, armed⟩
        · -- The connection has been closed: nothing is left in the tables.
          refine iff_of_true (fun d s other _ ℓ fd listed => ?_) holds
          obtain ⟨rfl, _⟩ := only other
          obtain ⟨dl, alive', loop', fd'⟩ := sound'.http ℓ fd d listed
          rcases release_conns r₁ d with same | ⟨_, _, conns, _⟩
          · rw [same] at alive' listed
            cases own.symm.trans alive'
            subst loop' fd'
            rw [loop_, fd_, epoll] at listed
            cases gone.symm.trans listed
          · rw [conns] at alive'
            cases (update_self _ _ _).symm.trans alive'
        -- It is still in the table, so it is not destroyed when the handler returns.
        · have listed : (r₁.loops cl.http.loop_).epoll.fd2http_ cl.http.fd_ = some c := by
            rw [epoll, kept]
            exact entry
          have alone : r₁.release c = r₁ := by
            refine release_listed r₁ own ?_
            rw [loop_, fd_]
            exact listed
          rw [alone] at sound' ⊢
          refine Iff.trans ⟨fun leaves => ?_, fun holds d s other _ ℓ fd listed' => ?_⟩ armed
          · obtain ⟨dl, alive', holds⟩ := leaves c s₀ handled early _ _ listed
            cases own.symm.trans alive'
            rw [epoll] at holds
            exact holds
          · obtain ⟨rfl, _⟩ := only other
            obtain ⟨here, here'⟩ := sound'.http_at own listed'
            rw [here, here', loop_, fd_, epoll]
            exact ⟨_, own, holds⟩
  | _ => exact iff_of_true (fun _ _ other => nomatch other) fun _ enters => nomatch enters

theorem reachable_listening {w : ConnId → World} {r : Reactor}
    (reached : (machine w).ReachableUnder (fun r l => l.Succeeds ∧ StaysArmed w r l) r) :
    r.Sound ∧ r.Timed ∧ r.Listening := by
  refine Machine.invariant_under (I := fun r => r.Sound ∧ r.Timed ∧ r.Listening) ?_ ?_ reached
  · intro r start
    rw [start]
    exact ⟨sound_new, timed_new, listening_new⟩
  · rintro r l r' ⟨sound, timed, listening⟩ ⟨succeeds, kept⟩ taken
    exact ⟨sound.step r l r' taken, timed.step sound taken,
      listening.step sound timed succeeds taken kept⟩

/-- While `epoll_ctl` succeeds, all connections are left armed exactly as long as the branch
for a gone peer is not taken where it would leave one unarmed. -/
theorem armed_iff (w : ConnId → World) (ls : List Label) (succeeds : ∀ l ∈ ls, l.Succeeds) :
    (machine w).Along LeavesArmed new ls ↔
      (machine w).Along (fun r l _ => StaysArmed w r l) new ls := by
  apply Machine.along_iff (I := fun r => r.Sound ∧ r.Timed ∧ r.Listening)
  · rintro r l r' member ⟨sound, _, listening⟩ taken
    exact leavesArmed_iff listening sound (succeeds l member) taken
  · rintro r l r' member ⟨sound, timed, listening⟩ taken kept
    exact ⟨sound.step r l r' taken, timed.step sound taken,
      listening.step sound timed (succeeds l member) taken kept⟩
  · exact ⟨sound_new, timed_new, listening_new⟩

/-- A request that is answered in part, and the next turn of the loop with room for the rest. -/
def resumed : List Label := requested ++ [
  .handle 1 ⟨[.data 71 (bytes "ET /hello HTTP/1.1\r\nA: b\r\n\r\n")], [.accepted 5, .eagain],
    ⟨0, 0⟩, true⟩,
  .startFunctors 1, .endFunctors 1, .endExpire 1 ⟨0, 0⟩,
  .poll 1 [(5, ⟨false, true, false, false⟩)] false,
  .handle 1 ⟨[], [], ⟨0, 0⟩, true⟩]

theorem armed_iff_resumed : ((machine fun _ => World.bare).exec new resumed).isSome = true ∧
    ((machine fun _ => World.bare).Along LeavesArmed new resumed ↔
      (machine fun _ => World.bare).Along (fun r l _ => StaysArmed (fun _ => World.bare) r l)
        new resumed) :=
  ⟨by decide +kernel, armed_iff _ _ (by decide +kernel)⟩

/-- The registration of `newEvent` has fired, and nobody renews it. -/
theorem half_close_unarmed : ¬∀ ls, (∀ l ∈ ls, Label.Succeeds l) →
    (machine fun _ => World.bare).Along LeavesArmed new ls := by
  intro always
  obtain ⟨r, run, unarmed, enabled⟩ := Machine.exec_any (M := machine fun _ => World.bare)
    (fun r => ¬StaysArmed (fun _ => World.bare) r (.handle 1 halfClose) ∧
      (step (fun _ => World.bare) r (.handle 1 halfClose)).isSome = true)
    new requested (by decide +kernel)
  have allowed : (machine fun _ => World.bare).Along
      (fun r l _ => l.Succeeds ∧ StaysArmed (fun _ => World.bare) r l) new requested := by
    decide +kernel
  obtain ⟨sound, _, listening⟩ := reachable_listening (Machine.reachable_exec (.init rfl) allowed run)
  obtain ⟨r', taken⟩ := Option.isSome_iff_exists.mp enabled
  have last := Machine.along_append run (always (requested ++ [.handle 1 halfClose]) (by decide +kernel))
  rw [Machine.along_singleton taken] at last
  have succeeds : (Label.handle 1 halfClose).Succeeds := rfl
  exact unarmed ((leavesArmed_iff listening sound succeeds taken).mp last)

end Reactor
end LightAgent

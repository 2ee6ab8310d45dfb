import LightAgent.HttpData.Surroundings
import LightAgent.Library.Interleaving
import LightAgent.Reactor.FailStop

/-!
# Loops do not share connections

What belongs to one loop is a reactor of its own: its steps need nothing of the other loops, and
change nothing of them. Only the accepting thread hands something over. So the order in which
different loops take their steps is nothing to the state they lead to.
-/
namespace LightAgent

open Library Function

namespace Reactor

/-- The loop whose thread takes the step; the accepting thread is none of them. -/
def Label.thread : Label → Option LoopId
  | .accept .. | .accepted => none
  | .poll ℓ _ _ | .handle ℓ _ | .startFunctors ℓ | .runFunctor ℓ _ | .endFunctors ℓ
  | .expire ℓ _ _ | .endExpire ℓ _ => some ℓ

/-- The part of one loop: its poller, its queues and its connections, and what every loop reads.
The descriptor table of the process is left out. -/
def part (r : Reactor) (ℓ : LoopId) : Reactor where
  conns := fun c => (r.conns c).filter fun cl => cl.http.loop_ = ℓ
  nextConn := r.nextConn
  loops := update new.loops ℓ (r.loops ℓ)
  isOpen := fun _ => false
  req_info := r.req_info

variable {r r' : Reactor} {ℓ ℓ' : LoopId} {c : ConnId} {cl : Client}

@[simp] theorem part_loop (r : Reactor) (ℓ : LoopId) : (r.part ℓ).loops ℓ = r.loops ℓ :=
  update_self _ _ _

theorem part_conns (alive : r.conns c = some cl) (own : cl.http.loop_ = ℓ) :
    (r.part ℓ).conns c = some cl := by
  simp [part, alive, own]

/-! ### The operations on the part of their loop -/

/-- A call leaves a connection of the same loop. -/
theorem call_own {a : Arrival} {handler : Conn → Conn} (alive : r.conns c = some cl)
    (own : cl.http.loop_ = ℓ) (keeps : ∀ s, (handler s).http.loop_ = s.http.loop_)
    (called : r.call c a handler = some r') :
    ∀ cl', r'.conns c = some cl' → cl'.http.loop_ = ℓ := by
  unfold call at called
  rw [alive] at called
  cases called
  intro cl' alive'
  have stored : (r.store c (handler (cl.conn a (r.loops cl.http.loop_).epoll))).conns c = _ :=
    update_self _ _ _
  cases stored.symm.trans alive'
  exact (keeps _).trans own

/-- A handler keeps the loop of its connection. -/
theorem handlers_loop (w : World) (s : Conn) : (handleEvents w s).http.loop_ = s.http.loop_ ∧
    (newEvent s).http.loop_ = s.http.loop_ ∧ (handleClose s).http.loop_ = s.http.loop_ :=
  ⟨(handleEvents_effect w s).loop_, (newEvent_effect s).loop_, (handleClose_closed s).effect.loop_⟩

theorem part_congr (loop : r'.loops ℓ = r.loops ℓ)
    (conns : ∀ c, (r'.conns c).filter (fun cl => cl.http.loop_ = ℓ) =
      (r.conns c).filter fun cl => cl.http.loop_ = ℓ)
    (nextConn : r'.nextConn = r.nextConn) (req_info : r'.req_info = r.req_info) :
    r'.part ℓ = r.part ℓ := by
  unfold part
  rw [loop, nextConn, req_info]
  congr
  exact funext conns

/-- A connection of another loop is not looked at. -/
theorem filter_update (other : ℓ' ≠ ℓ) (old : ∀ cl, r.conns c = some cl → cl.http.loop_ = ℓ)
    {new : Option Client} (own : ∀ cl ∈ new, cl.http.loop_ = ℓ) (d : ConnId) :
    (update r.conns c new d).filter (fun cl => cl.http.loop_ = ℓ') =
      (r.conns d).filter fun cl => cl.http.loop_ = ℓ' := by
  have hidden (o : Option Client) (belongs : ∀ cl ∈ o, cl.http.loop_ = ℓ) :
      o.filter (fun cl => cl.http.loop_ = ℓ') = none := by
    refine Option.filter_eq_none_iff.mpr fun cl member => ?_
    rw [belongs cl member]
    simpa using Ne.symm other
  by_cases same : d = c
  · subst same
    rw [update_self, hidden new own, hidden (r.conns d) old]
  · rw [update_of_ne same]

theorem store_away (other : ℓ' ≠ ℓ) (alive : r.conns c = some cl) (own : cl.http.loop_ = ℓ)
    {s : Conn} (keeps : s.http.loop_ = ℓ) : (r.store c s).part ℓ' = r.part ℓ' := by
  refine part_congr (store_of_ne r c (keeps ▸ other)) (fun d => ?_) rfl rfl
  refine filter_update other (fun cl' alive' => ?_) (fun cl' same => ?_) d
  · cases alive.symm.trans alive'
    exact own
  · rw [← Option.some.inj same]
    exact keeps

theorem call_away (other : ℓ' ≠ ℓ) {a : Arrival} {handler : Conn → Conn}
    (alive : r.conns c = some cl) (own : cl.http.loop_ = ℓ)
    (keeps : ∀ s, (handler s).http.loop_ = s.http.loop_) (called : r.call c a handler = some r') :
    r'.part ℓ' = r.part ℓ' := by
  unfold call at called
  rw [alive] at called
  cases called
  exact store_away other alive own ((keeps _).trans own)

theorem release_away (other : ℓ' ≠ ℓ) (own : ∀ cl, r.conns c = some cl → cl.http.loop_ = ℓ) :
    (r.release c).part ℓ' = r.part ℓ' := by
  unfold release
  cases alive : r.conns c with
  | none => rfl
  | some cl =>
    obtain rfl := own cl alive
    dsimp only
    split
    · rfl
    · have gone (cl' : Client) (there : cl' ∈ (none : Option Client)) :
          cl'.http.loop_ = cl.http.loop_ := by cases there
      exact part_congr (setEpoll_of_ne r _ other _) (filter_update other own gone) rfl rfl

theorem releases_away (other : ℓ' ≠ ℓ) {cs : List ConnId}
    (own : ∀ c ∈ cs, ∀ cl, r.conns c = some cl → cl.http.loop_ = ℓ) :
    (cs.foldl release r).part ℓ' = r.part ℓ' := by
  induction cs generalizing r with
  | nil => rfl
  | cons c cs ih =>
    rw [List.foldl_cons, ih fun d member cl alive => ?_]
    · exact release_away other (own c (List.mem_cons_self ..))
    · obtain ⟨cl₁, _, before, rfl⟩ := LeftAlone.release r d c cl alive
      exact own d (List.mem_cons_of_mem _ member) cl₁ before

theorem report_away (sound : r.Sound) (other : ℓ' ≠ ℓ) (e : Fd × Ready) :
    (report ℓ r e).part ℓ' = r.part ℓ' := by
  unfold report
  dsimp only
  split
  · exact part_congr (setEpoll_of_ne r ℓ other _) (fun _ => rfl) rfl rfl
  next c entry =>
    obtain ⟨cl, alive, own, _⟩ := sound.http ℓ e.1 c (sound.chan ℓ e.1 c entry)
    have old (cl' : Client) (alive' : r.conns c = some cl') : cl'.http.loop_ = ℓ := by
      cases alive.symm.trans alive'
      exact own
    refine part_congr (setEpoll_of_ne r ℓ other _) (filter_update other old fun cl' made => ?_)
      rfl rfl
    obtain ⟨cl₁, alive₁, rfl⟩ := Option.map_eq_some_iff.mp made
    exact old cl₁ alive₁

theorem reports_away (sound : r.Sound) (other : ℓ' ≠ ℓ) (events : List (Fd × Ready)) :
    (events.foldl (report ℓ) r).part ℓ' = r.part ℓ' := by
  induction events generalizing r with
  | nil => rfl
  | cons e events ih => rw [List.foldl_cons, ih (sound.report ℓ e), report_away sound other]

theorem setPoint_away (r : Reactor) (other : ℓ' ≠ ℓ) (point : LoopPoint) :
    (r.setPoint ℓ point).part ℓ' = r.part ℓ' :=
  part_congr (setPoint_of_ne r ℓ other point) (fun _ => rfl) rfl rfl

theorem pop_away (r : Reactor) (other : ℓ' ≠ ℓ) (id : TimerId) :
    (r.pop ℓ id).part ℓ' = r.part ℓ' :=
  part_congr (setEpoll_of_ne r ℓ other _) (fun _ => rfl) rfl rfl

/-- A step of a loop leaves the parts of the others as they are. -/
theorem step_away {w : ConnId → World} {l : Label} (sound : r.Sound) (own : l.thread = some ℓ)
    (other : ℓ' ≠ ℓ) (taken : step w r l = some r') : r'.part ℓ' = r.part ℓ' := by
  cases step_steps taken with
  | accept fd ℓ₁ nonBlocking _ _ => cases own
  | accepted c _ => cases own
  | poll ℓ₁ events woken _ _ =>
    cases own
    unfold pollEvents
    rw [setPoint_away _ other, reports_away sound other]
  | handle ℓ₁ a c ret r₁ point called =>
    cases own
    have keeps (s : Conn) := (handlers_loop (w c) s).1
    obtain ⟨cl, alive, loop, _⟩ := sound.handle_inv point called
    rw [release_away other (call_own (r := r.setPoint ℓ (.handling ret)) alive loop keeps called),
      call_away other (r := r.setPoint ℓ (.handling ret)) alive loop keeps called,
      setPoint_away r other]
  | startFunctors ℓ₁ _ =>
    cases own
    refine part_congr ?_ (fun _ => rfl) rfl rfl
    simp [swapFunctors, other]
  | runFunctor ℓ₁ a done c rest r₁ point called =>
    cases own
    have keeps (s : Conn) := (handlers_loop (w c) s).2.1
    obtain ⟨cl, alive, loop, _⟩ := sound.functor_inv point called
    rw [call_away other (r := r.setPoint ℓ (.functors (done ++ [c]) rest)) alive loop keeps called,
      setPoint_away r other]
  | endFunctors ℓ₁ done point =>
    cases own
    rw [releases_away other (r := r.setPoint ℓ .expiring) fun c member cl alive => ?_,
      setPoint_away r other]
    obtain ⟨cl₁, alive₁, loop⟩ := sound.bound ℓ c (List.mem_append_right _ (by
      rw [point]; simpa [LoopPoint.bound] using member))
    cases alive.symm.trans alive₁
    exact loop
  | drop ℓ₁ a node _ _ _ =>
    cases own
    exact pop_away r other node.id
  | close ℓ₁ a node c r₁ point found refers called =>
    cases own
    have keeps (s : Conn) := (handlers_loop (w c) s).2.2
    obtain ⟨cl, alive, loop, _⟩ := sound.close_inv point found refers called
    rw [release_away other (call_own (r := r.pop ℓ node.id) alive loop keeps called),
      call_away other (r := r.pop ℓ node.id) alive loop keeps called, pop_away r other]
  | endExpire ℓ₁ now _ =>
    cases own
    exact setPoint_away r other _

/-! ### The descriptor table -/

/-- Connections may be destroyed, and then their descriptors are closed; nothing else is done to
the descriptor table. -/
structure Thins (r r' : Reactor) : Prop where
  survives : ∀ c cl', r'.conns c = some cl' →
    ∃ cl, r.conns c = some cl ∧ cl'.http.fd_ = cl.http.fd_
  isOpen : ∀ fd, r'.isOpen fd = true ↔ r.isOpen fd = true ∧
    ∀ c cl, r.conns c = some cl → cl.http.fd_ = fd → r'.conns c ≠ none

namespace Thins

variable {r'' : Reactor}

theorem trans (first : Thins r r') (second : Thins r' r'') : Thins r r'' where
  survives c cl'' alive'' := by
    obtain ⟨cl', alive', same'⟩ := second.survives c cl'' alive''
    obtain ⟨cl, alive, same⟩ := first.survives c cl' alive'
    exact ⟨cl, alive, same'.trans same⟩
  isOpen fd := by
    rw [second.isOpen, first.isOpen, and_assoc]
    refine and_congr_right fun _ => ?_
    constructor
    · rintro ⟨early, late⟩ c cl alive same
      obtain ⟨cl', alive'⟩ := Option.ne_none_iff_exists'.mp (early c cl alive same)
      obtain ⟨cl₁, alive₁, same'⟩ := first.survives c cl' alive'
      cases alive.symm.trans alive₁
      exact late c cl' alive' (same'.trans same)
    · intro stays
      constructor
      · intro c cl alive same gone
        obtain ⟨cl'', alive''⟩ := Option.ne_none_iff_exists'.mp (stays c cl alive same)
        obtain ⟨cl', alive', _⟩ := second.survives c cl'' alive''
        cases gone.symm.trans alive'
      · intro c cl' alive' same
        obtain ⟨cl, alive, same'⟩ := first.survives c cl' alive'
        exact stays c cl alive (same'.symm.trans same)

/-- No connection is destroyed. -/
theorem of_alive (isOpen : r'.isOpen = r.isOpen)
    (survives : ∀ c cl', r'.conns c = some cl' →
      ∃ cl, r.conns c = some cl ∧ cl'.http.fd_ = cl.http.fd_)
    (stays : ∀ c cl, r.conns c = some cl → r'.conns c ≠ none) : Thins r r' :=
  ⟨survives, fun fd => by
    rw [isOpen]
    exact (and_iff_left fun c cl alive _ => stays c cl alive).symm⟩

theorem of_same (isOpen : r'.isOpen = r.isOpen) (conns : r'.conns = r.conns) : Thins r r' :=
  .of_alive isOpen (fun c cl alive => ⟨cl, conns ▸ alive, rfl⟩)
    fun c cl alive gone => by
      rw [conns, alive] at gone
      cases gone

theorem call {a : Arrival} {handler : Conn → Conn} (keeps : ∀ s, (handler s).http.fd_ = s.http.fd_)
    (called : r.call c a handler = some r') : Thins r r' := by
  obtain ⟨cl, alive, rfl⟩ := Option.map_eq_some_iff.mp called
  refine .of_alive rfl (fun d dl' alive' => ?_) fun d dl alive' gone => ?_
  · rcases of_update_some alive' with ⟨rfl, rfl⟩ | ⟨_, old⟩
    · exact ⟨cl, alive, keeps _⟩
    · exact ⟨dl', old, rfl⟩
  · by_cases same : d = c
    · subst same
      exact nomatch (update_self _ _ _).symm.trans gone
    · have stays : r.conns d = none := (update_of_ne same _ _).symm.trans gone
      cases stays.symm.trans alive'

theorem release (r : Reactor) (c : ConnId) : Thins r (r.release c) := by
  unfold Reactor.release
  cases alive : r.conns c with
  | none => exact .of_same rfl rfl
  | some cl =>
    dsimp only
    split
    · exact .of_same rfl rfl
    · refine ⟨fun d dl' alive' => ⟨dl', (of_update_none alive').2, rfl⟩, fun fd => ?_⟩
      dsimp only
      by_cases own : fd = cl.http.fd_
      · subst own
        rw [update_self]
        exact iff_of_false Bool.false_ne_true fun ⟨_, stays⟩ =>
          stays c cl alive rfl (update_self _ _ _)
      · rw [update_of_ne own]
        refine (and_iff_left fun d dl alive' same gone => ?_).symm
        -- A connection with another descriptor is another one.
        have other : d ≠ c := by
          rintro rfl
          cases alive.symm.trans alive'
          exact own same.symm
        rw [update_of_ne other, alive'] at gone
        cases gone

theorem releases (r : Reactor) (cs : List ConnId) : Thins r (cs.foldl Reactor.release r) := by
  induction cs generalizing r with
  | nil => exact .of_same rfl rfl
  | cons c cs ih => exact (release r c).trans (ih _)

theorem report (r : Reactor) (ℓ : LoopId) (e : Fd × Ready) : Thins r (Reactor.report ℓ r e) := by
  refine .of_alive ?_ (fun c cl' alive' => ?_) fun c cl alive gone => ?_
  · unfold Reactor.report
    dsimp only
    split <;> rfl
  · obtain ⟨old, alive, rfl | rfl⟩ := report_some r ℓ alive'
    · exact ⟨cl', alive, rfl⟩
    · exact ⟨old, alive, rfl⟩
  · rw [report_conns, alive] at gone
    split at gone <;> cases gone

theorem reports (r : Reactor) (ℓ : LoopId) (events : List (Fd × Ready)) :
    Thins r (events.foldl (Reactor.report ℓ) r) := by
  induction events generalizing r with
  | nil => exact .of_same rfl rfl
  | cons e events ih => exact (report r ℓ e).trans (ih _)

theorem step {w : ConnId → World} {l : Label} (own : l.thread = some ℓ)
    (taken : Reactor.step w r l = some r') : Thins r r' := by
  have handlers (w : World) (s : Conn) : (handleEvents w s).http.fd_ = s.http.fd_ ∧
      (newEvent s).http.fd_ = s.http.fd_ ∧ (handleClose s).http.fd_ = s.http.fd_ :=
    ⟨(handleEvents_effect w s).fd_, (newEvent_effect s).fd_, (handleClose_closed s).effect.fd_⟩
  have sets (ℓ : LoopId) (point : LoopPoint) : Thins r (r.setPoint ℓ point) := .of_same rfl rfl
  cases step_steps taken with
  | accept fd ℓ₁ nonBlocking _ _ => cases own
  | accepted c _ => cases own
  | poll ℓ₁ events woken _ _ => exact (reports r ℓ₁ events).trans (.of_same rfl rfl)
  | handle ℓ₁ a c ret r₁ _ called =>
    exact ((sets ℓ₁ _).trans (call (fun s => (handlers (w c) s).1) called)).trans (release r₁ c)
  | startFunctors ℓ₁ _ => exact .of_same rfl rfl
  | runFunctor ℓ₁ a done c rest r₁ _ called =>
    exact (sets ℓ₁ _).trans (call (fun s => (handlers (w c) s).2.1) called)
  | endFunctors ℓ₁ done _ => exact (sets ℓ₁ _).trans (releases _ done)
  | drop ℓ₁ a node _ _ _ => exact .of_same rfl rfl
  | close ℓ₁ a node c r₁ _ _ _ called =>
    have popped : Thins r (r.pop ℓ₁ node.id) := .of_same rfl rfl
    exact (popped.trans (call (fun s => (handlers (w c) s).2.2) called)).trans (release r₁ c)
  | endExpire ℓ₁ now _ => exact sets ℓ₁ _

end Thins

/-! ### Steps of different loops -/

/-- Which descriptors are closed is settled by which connections are destroyed. -/
theorem Thins.eq {r₁ r₂ : Reactor} (first : Thins r r₁) (second : Thins r r₂)
    (conns : r₁.conns = r₂.conns) : r₁.isOpen = r₂.isOpen := by
  funext fd
  refine Bool.eq_iff_iff.mpr ?_
  rw [first.isOpen, second.isOpen, conns]

/-- The handler that the step calls, if any, leaves a connection that has not asked for `metrics`. -/
def Uncounted (w : ConnId → World) (r : Reactor) : Label → Prop
  | .handle ℓ a => ∀ c ∈ (r.loops ℓ).point.ret.head?, ∀ cl ∈ r.conns c,
      (handleEvents (w c) (cl.conn a (r.loops cl.http.loop_).epoll)).Uncounted
  | _ => True

instance decideUncounted (w : ConnId → World) (r : Reactor) : (l : Label) → Decidable (r.Uncounted w l)
  | .handle _ _ => inferInstanceAs (Decidable (∀ _ ∈ _, ∀ _ ∈ _, _))
  | .accept _ _ _ | .accepted | .poll _ _ _ | .startFunctors _ | .runFunctor _ _ | .endFunctors _
  | .expire _ _ _ | .endExpire _ _ => .isTrue trivial

end Reactor
end LightAgent

import LightAgent.Reactor.Confinement
import LightAgent.Reactor.Lifetimes

/-!
# What owns a connection, and what a descriptor

An `HttpData` lives as long as something refers to it, and it owns its descriptor. So a descriptor
is open because of a connection that something can still find; the descriptors on which
`handNewConn` returns early are the exception, and stay open for ever.
-/
namespace LightAgent

open Library Function

namespace Reactor

variable {r r' : Reactor} {c : ConnId} {cl : Client} {fd : Fd} {w : ConnId → World} {l : Label}
  {ls : List Label}

/-- Some loop or the accepting thread can reach the connection: through a `shared_ptr`, or through a
channel, whose handlers hold a pointer to it. -/
inductive Refers (r : Reactor) (c : ConnId) : Prop
  | channel (ℓ : LoopId) (fd : Fd) : (r.loops ℓ).epoll.fd2chan_ fd = some c → Refers r c
  | handedOut (ℓ : LoopId) : c ∈ (r.loops ℓ).point.ret → Refers r c
  | entry (ℓ : LoopId) (fd : Fd) : (r.loops ℓ).epoll.fd2http_ fd = some c → Refers r c
  | timer (ℓ : LoopId) (node : TimerNode) :
      node ∈ (r.loops ℓ).epoll.timerManager_.timerNodeQueue → node.SPHttpData = some c → Refers r c
  | functor (ℓ : LoopId) :
      c ∈ (r.loops ℓ).pendingFunctors_ ++ (r.loops ℓ).point.bound → Refers r c
  | accepted : r.req_info = some c → Refers r c

/-- No connection is missing that something refers to, and each one is kept by a `shared_ptr`. -/
theorem alive_iff_refers (sound : r.Sound) (referenced : r.Referenced) :
    (∃ cl, r.conns c = some cl) ↔ r.Refers c := by
  constructor
  · rintro ⟨cl, alive⟩
    rcases referenced c cl alive with entry | ⟨node, queued, refers⟩ | pending | bound | local_
    · exact .entry _ _ entry
    · exact .timer _ node queued refers
    · exact .functor _ (List.mem_append_left _ pending)
    · exact .functor _ (List.mem_append_right _ bound)
    · exact .accepted local_
  · rintro (⟨ℓ, fd, listed⟩ | ⟨ℓ, member⟩ | ⟨ℓ, fd, entry⟩ | ⟨ℓ, node, queued, refers⟩ | ⟨ℓ, waits⟩ | local_)
    · obtain ⟨cl, alive, _⟩ := sound.http ℓ fd c (sound.chan ℓ fd c listed)
      exact ⟨cl, alive⟩
    · obtain ⟨fd, entry⟩ := (sound.ret ℓ).2 c member
      obtain ⟨cl, alive, _⟩ := sound.http ℓ fd c entry
      exact ⟨cl, alive⟩
    · obtain ⟨cl, alive, _⟩ := sound.http ℓ fd c entry
      exact ⟨cl, alive⟩
    · obtain ⟨cl, alive, _⟩ := sound.timers ℓ node queued c refers
      exact ⟨cl, alive⟩
    · obtain ⟨cl, alive, _⟩ := sound.bound ℓ c waits
      exact ⟨cl, alive⟩
    · exact sound.local_ c local_

/-! ### Descriptors -/

/-- The descriptor is that of a connection. -/
def Owns (r : Reactor) (fd : Fd) : Prop := ∃ c cl, r.conns c = some cl ∧ cl.http.fd_ = fd

/-- `handNewConn` has ended its loop at the descriptor, or has returned on it. -/
def LeftOpen (ls : List Label) (fd : Fd) : Prop :=
  ∃ ℓ nonBlocking, Label.accept fd ℓ nonBlocking ∈ ls ∧ fd < MAXFDS ∧ ¬Usable fd nonBlocking

/-- A descriptor is open because a connection has it, or because it has been left open. -/
structure Accounted (ls : List Label) (r : Reactor) : Prop where
  isOpen : ∀ fd, r.isOpen fd = true ↔ r.Owns fd ∨ LeftOpen ls fd
  ownerless : ∀ fd, LeftOpen ls fd → ¬r.Owns fd

theorem accounted_new : Accounted [] new where
  isOpen fd := by
    refine iff_of_false Bool.false_ne_true ?_
    rintro (⟨c, cl, alive, _⟩ | ⟨ℓ, nonBlocking, member, _⟩)
    · cases alive
    · cases member
  ownerless fd := by
    rintro ⟨ℓ, nonBlocking, member, _⟩
    cases member

/-- Only a descriptor of which no connection is made is left open. -/
theorem leftOpen_concat (early : ∀ ℓ nonBlocking, l = .accept fd ℓ nonBlocking →
    fd < MAXFDS → Usable fd nonBlocking) : LeftOpen (ls ++ [l]) fd ↔ LeftOpen ls fd := by
  refine exists_congr fun ℓ => exists_congr fun nonBlocking => ?_
  refine and_congr_left fun ⟨small, unusable⟩ => ?_
  rw [List.mem_append, List.mem_singleton]
  exact or_iff_left fun last => unusable (early ℓ nonBlocking last.symm small)

namespace Thins

theorem owns (thins : Thins r r') (owns : r'.Owns fd) : r.Owns fd := by
  obtain ⟨c, cl', alive', same⟩ := owns
  obtain ⟨cl, alive, kept⟩ := thins.survives c cl' alive'
  exact ⟨c, cl, alive, kept.symm.trans same⟩

/-- A connection that is destroyed takes its descriptor with it. -/
theorem accounted (thins : Thins r r') (sound : r.Sound) (accounted : Accounted ls r)
    (same : ∀ fd, LeftOpen (ls ++ [l]) fd ↔ LeftOpen ls fd) : Accounted (ls ++ [l]) r' where
  isOpen fd := by
    rw [thins.isOpen, accounted.isOpen, same]
    constructor
    · rintro ⟨⟨c, cl, alive, mine⟩ | left, survive⟩
      · obtain ⟨cl', alive'⟩ := Option.ne_none_iff_exists'.mp (survive c cl alive mine)
        obtain ⟨old, there, kept⟩ := thins.survives c cl' alive'
        cases alive.symm.trans there
        exact .inl ⟨c, cl', alive', kept.trans mine⟩
      · exact .inr left
    · rintro (⟨c, cl', alive', mine⟩ | left)
      · obtain ⟨cl, alive, kept⟩ := thins.survives c cl' alive'
        have mine' := kept.symm.trans mine
        refine ⟨.inl ⟨c, cl, alive, mine'⟩, fun d dl there other gone => ?_⟩
        -- No two connections have the same descriptor.
        obtain rfl := sound.distinct c d cl dl alive there (mine'.trans other.symm)
        cases alive'.symm.trans gone
      · exact ⟨.inr left, fun d dl there other => absurd ⟨d, dl, there, other⟩
          (accounted.ownerless fd left)⟩
  ownerless fd left owns := accounted.ownerless fd ((same fd).mp left) (thins.owns owns)

end Thins

theorem leftOpen_accept (small : fd < MAXFDS) (ℓ : LoopId) (nonBlocking : Bool) (fd' : Fd) :
    LeftOpen (ls ++ [.accept fd ℓ nonBlocking]) fd' ↔
      LeftOpen ls fd' ∨ fd' = fd ∧ ¬Usable fd nonBlocking := by
  by_cases here : fd' = fd ∧ ¬Usable fd nonBlocking
  · obtain ⟨rfl, unusable⟩ := here
    exact iff_of_true ⟨ℓ, nonBlocking, List.mem_append_right _ List.mem_cons_self, small, unusable⟩
      (.inr ⟨rfl, unusable⟩)
  · rw [or_iff_left here]
    refine leftOpen_concat fun ℓ' nonBlocking' last _ => ?_
    cases last
    by_contra unusable
    exact here ⟨rfl, unusable⟩

theorem acceptConn_isOpen (small : fd < MAXFDS) (ℓ : LoopId) (nonBlocking : Bool) :
    (r.acceptConn fd ℓ nonBlocking).isOpen = update r.isOpen fd true := by
  unfold acceptConn
  rw [if_neg (Nat.not_le_of_lt small)]
  dsimp only
  split
  · rfl
  · rfl

theorem acceptConn_owns (sound : r.Sound) (ℓ : LoopId) (nonBlocking : Bool)
    (fd' : Fd) : (r.acceptConn fd ℓ nonBlocking).Owns fd' ↔
      r.Owns fd' ∨ fd' = fd ∧ Usable fd nonBlocking := by
  by_cases usable : Usable fd nonBlocking
  · rw [acceptConn_usable r ℓ usable]
    constructor
    · rintro ⟨c, cl, alive, rfl⟩
      rcases of_update_some alive with ⟨rfl, rfl⟩ | ⟨_, old⟩
      · exact .inr ⟨rfl, usable⟩
      · exact .inl ⟨c, cl, old, rfl⟩
    · rintro (⟨c, cl, alive, rfl⟩ | ⟨rfl, _⟩)
      · refine ⟨c, cl, (update_of_ne ?_ _ _).trans alive, rfl⟩
        -- The name of the new connection is not in use.
        exact Nat.ne_of_lt (sound.named c cl alive).2.2
      · exact ⟨r.nextConn, _, update_self _ _ _, rfl⟩
  · obtain ⟨isOpen, same⟩ := acceptConn_unusable r ℓ usable
    rw [same]
    exact (or_iff_left fun made => usable made.2).symm

/-- A descriptor that `accept` returns is a connection's from then on, unless it cannot be used. -/
theorem Accounted.acceptConn (accounted : Accounted ls r) (sound : r.Sound)
    (closed : r.isOpen fd = false) (ℓ : LoopId) (nonBlocking : Bool) :
    Accounted (ls ++ [.accept fd ℓ nonBlocking]) (r.acceptConn fd ℓ nonBlocking) := by
  by_cases small : fd < MAXFDS
  · have shut : ¬(r.Owns fd ∨ LeftOpen ls fd) := by
      rw [← accounted.isOpen, closed]
      exact Bool.false_ne_true
    constructor
    · intro fd'
      rw [acceptConn_isOpen small, acceptConn_owns sound, leftOpen_accept small]
      by_cases here : fd' = fd
      · subst here
        simp only [update_self, true_and, true_iff]
        by_cases usable : Usable fd' nonBlocking
        · exact .inl (.inr usable)
        · exact .inr (.inr usable)
      · simp [here, accounted.isOpen]
    · intro fd' left owns
      rw [leftOpen_accept small] at left
      rw [acceptConn_owns sound] at owns
      rcases left with left | ⟨rfl, unusable⟩
      · rcases owns with owns | ⟨rfl, _⟩
        · exact accounted.ownerless fd' left owns
        · exact shut (.inr left)
      · rcases owns with owns | ⟨_, usable⟩
        · exact shut (.inl owns)
        · exact unusable usable
  · -- A descriptor that is too large is closed at once.
    have same : r.acceptConn fd ℓ nonBlocking = r := if_pos (Nat.le_of_not_lt small)
    rw [same]
    refine (Thins.of_same rfl rfl).accounted sound accounted fun fd' => ?_
    refine leftOpen_concat fun ℓ' nonBlocking' last small' => ?_
    cases last
    exact absurd small' small

theorem Accounted.step (accounted : Accounted ls r) (sound : r.Sound)
    (taken : Reactor.step w r l = some r') : Accounted (ls ++ [l]) r' := by
  -- The steps of a loop accept nothing.
  have loop {ℓ : LoopId} (own : l.thread = some ℓ)
      (other : ∀ fd ℓ nonBlocking, l ≠ .accept fd ℓ nonBlocking) : Accounted (ls ++ [l]) r' :=
    (Thins.step own taken).accounted sound accounted fun fd =>
      leftOpen_concat fun ℓ nonBlocking last => absurd last (other fd ℓ nonBlocking)
  cases step_steps taken with
  | accept fd ℓ nonBlocking _ closed => exact accounted.acceptConn sound closed ℓ nonBlocking
  | accepted c _ =>
    have unheld : Thins r { r with req_info := none } := .of_same rfl rfl
    exact (unheld.trans (.release _ c)).accounted sound accounted fun fd => leftOpen_concat nofun
  | _ => exact loop rfl nofun

/-- In every run a connection is there exactly as long as something refers to it, and a descriptor
is open exactly where a connection has it, or where `handNewConn` ended with it: because it is 0,
or could not be made nonblocking. -/
theorem ownership (run : (machine w).exec new ls = some r) :
    (∀ c, (∃ cl, r.conns c = some cl) ↔ r.Refers c) ∧
      ∀ fd, r.isOpen fd = true ↔ r.Owns fd ∨ LeftOpen ls fd := by
  have inv : r.Sound ∧ r.Timed ∧ r.Referenced ∧ Accounted ls r := by
    induction ls using List.reverseRecOn generalizing r with
    | nil =>
      cases run
      exact ⟨sound_new, timed_new, referenced_new, accounted_new⟩
    | append_singleton ls l ih =>
      obtain ⟨r₁, front, taken⟩ := Machine.exec_concat run
      obtain ⟨sound, timed, referenced, accounted⟩ := ih front
      exact ⟨sound.step r₁ l r taken, timed.step sound taken, referenced.step sound timed taken,
        accounted.step sound taken⟩
  obtain ⟨sound, _, referenced, accounted⟩ := inv
  exact ⟨fun c => alive_iff_refers sound referenced, accounted.isOpen⟩

/-- A connection that times out and is destroyed, and a descriptor that is left open. -/
def leaking : List Label :=
  entering 5 1 ++ [.expire 1 0 (quietAt 3), .endExpire 1 ⟨3, 0⟩, .accept 9 1 false]

theorem ownership_leaking : ∃ r, (machine fun _ => World.bare).exec new leaking = some r ∧
    (¬r.Refers 0 ∧ ¬r.Owns 5) ∧ r.isOpen 9 = true ∧ (r.Owns 9 ∨ LeftOpen leaking 9) := by
  obtain ⟨r, run, gone, closed, opened⟩ := Machine.exec_any (M := machine fun _ => World.bare)
    (fun r => r.conns 0 = none ∧ r.isOpen 5 = false ∧ r.isOpen 9 = true) new leaking
    (by decide +kernel)
  obtain ⟨alive, descriptors⟩ := ownership run
  refine ⟨r, run, ⟨fun refers => ?_, fun owns => ?_⟩, opened, (descriptors 9).mp opened⟩
  · obtain ⟨cl, there⟩ := (alive 0).mpr refers
    cases gone.symm.trans there
  · cases closed.symm.trans ((descriptors 5).mpr (.inl owns))

end Reactor
end LightAgent

import LightAgent.HttpData.Effects
import LightAgent.Reactor.Operations
import Mathlib.Data.List.Nodup

/-!
# Who holds a descriptor

`Sound` couples the references to connections with the tables of the loops and with the
descriptors the kernel may hand out again. Each operation the steps are made of keeps it.
-/
namespace LightAgent

open Library Function

namespace Reactor

/-- The connection is alive and belongs to the loop. -/
def Lives (r : Reactor) (c : ConnId) (ℓ : LoopId) : Prop :=
  ∃ cl, r.conns c = some cl ∧ cl.http.loop_ = ℓ

structure Sound (r : Reactor) : Prop where
  /-- an object and its channel know its name -/
  named : ∀ c cl, r.conns c = some cl →
    cl.http.this = c ∧ cl.http.channel_.holder_ = some c ∧ c < r.nextConn
  opened : ∀ c cl, r.conns c = some cl → r.isOpen cl.http.fd_ = true
  distinct : ∀ c d cl dl, r.conns c = some cl → r.conns d = some dl →
    cl.http.fd_ = dl.http.fd_ → c = d
  /-- an entry is a live connection of this loop and this descriptor -/
  http : ∀ ℓ fd c, (r.loops ℓ).epoll.fd2http_ fd = some c →
    ∃ cl, r.conns c = some cl ∧ cl.http.loop_ = ℓ ∧ cl.http.fd_ = fd
  /-- a channel is listed together with its connection -/
  chan : ∀ ℓ fd c, (r.loops ℓ).epoll.fd2chan_ fd = some c →
    (r.loops ℓ).epoll.fd2http_ fd = some c
  timers : ∀ ℓ, ∀ node ∈ (r.loops ℓ).epoll.timerManager_.timerNodeQueue, ∀ c,
    node.SPHttpData = some c → r.Lives c ℓ
  bound : ∀ ℓ, ∀ c ∈ (r.loops ℓ).pendingFunctors_ ++ (r.loops ℓ).point.bound, r.Lives c ℓ
  /-- a functor that has not run is the only one of its connection, which has no entry -/
  fresh : ∀ ℓ, ((r.loops ℓ).point.waiting ++ (r.loops ℓ).pendingFunctors_).Nodup ∧
    ∀ c ∈ (r.loops ℓ).point.waiting ++ (r.loops ℓ).pendingFunctors_, ∀ fd,
      (r.loops ℓ).epoll.fd2http_ fd ≠ some c
  /-- a channel that is to be handled is one of a connection in the table -/
  ret : ∀ ℓ, (r.loops ℓ).point.ret.Nodup ∧
    ∀ c ∈ (r.loops ℓ).point.ret, ∃ fd, (r.loops ℓ).epoll.fd2http_ fd = some c
  local_ : ∀ c, r.req_info = some c → ∃ cl, r.conns c = some cl

theorem sound_new : new.Sound where
  named _ _ alive := by cases alive
  opened _ _ alive := by cases alive
  distinct _ _ _ _ alive := by cases alive
  http _ _ _ entry := by cases entry
  chan _ _ _ entry := by cases entry
  timers _ _ queued := by cases queued
  bound _ _ waits := by cases waits
  fresh _ := ⟨List.nodup_nil, fun _ waits => by cases waits⟩
  ret _ := ⟨List.nodup_nil, fun _ member => by cases member⟩
  local_ _ held := by cases held

namespace Sound

variable {r : Reactor}

theorem lives_unique {c : ConnId} {ℓ ℓ' : LoopId} (lives : r.Lives c ℓ) (lives' : r.Lives c ℓ') :
    ℓ = ℓ' := by
  obtain ⟨cl, alive, loop⟩ := lives
  obtain ⟨cl', alive', loop'⟩ := lives'
  cases alive.symm.trans alive'
  exact loop.symm.trans loop'

/-- The entries of a live connection are at its descriptor in its loop. -/
theorem http_at (sound : r.Sound) {c : ConnId} {cl : Client} (alive : r.conns c = some cl)
    {ℓ : LoopId} {fd : Fd} (entry : (r.loops ℓ).epoll.fd2http_ fd = some c) :
    ℓ = cl.http.loop_ ∧ fd = cl.http.fd_ := by
  obtain ⟨cl', alive', loop, same⟩ := sound.http ℓ fd c entry
  cases alive.symm.trans alive'
  exact ⟨loop.symm, same.symm⟩

/-- What waits to be run is held by its functor. -/
theorem waits_live (sound : r.Sound) {c : ConnId} {ℓ : LoopId}
    (waits : c ∈ (r.loops ℓ).point.waiting ++ (r.loops ℓ).pendingFunctors_) : r.Lives c ℓ := by
  apply sound.bound ℓ c
  rcases List.mem_append.mp waits with waiting | pending
  · exact List.mem_append_right _ (waiting_subset _ waiting)
  · exact List.mem_append_left _ pending

/-- What stands at the descriptor of a live connection is its own entry. -/
theorem own_entry (sound : r.Sound) {c d : ConnId} {cl : Client} (alive : r.conns c = some cl)
    {ℓ : LoopId} (entry : (r.loops ℓ).epoll.fd2http_ cl.http.fd_ = some d) : d = c := by
  obtain ⟨dl, alive', _, same⟩ := sound.http ℓ _ d entry
  exact sound.distinct d c dl cl alive' alive same

end Sound

/-! ### A handler -/

namespace Sound

variable {r : Reactor} {c : ConnId} {cl : Client} {a : Arrival} {s : Conn}

/-- Entries of other connections are as they were, and the connection has none but at its
own descriptor. -/
theorem store_entries (sound : r.Sound) (alive : r.conns c = some cl)
    (effect : TableEffect (cl.conn a (r.loops cl.http.loop_).epoll) s) (ℓ : LoopId) (fd : Fd)
    (d : ConnId) :
    (((r.store c s).loops ℓ).epoll.fd2http_ fd = some d →
      (r.loops ℓ).epoll.fd2http_ fd = some d ∨
        (ℓ = cl.http.loop_ ∧ fd = cl.http.fd_ ∧ d = c)) ∧
    (d ≠ c → (r.loops ℓ).epoll.fd2http_ fd = some d →
      ((r.store c s).loops ℓ).epoll.fd2http_ fd = some d) := by
  have loop_ : s.http.loop_ = cl.http.loop_ := effect.loop_
  obtain ⟨entry, table, eq⟩ := effect.http
  have holder : cl.http.channel_.holder_ = some c := (sound.named c cl alive).2.1
  change s.epoll.fd2http_ = update (r.loops cl.http.loop_).epoll.fd2http_ cl.http.fd_ entry at table
  change entry = (r.loops cl.http.loop_).epoll.fd2http_ cl.http.fd_ ∨ entry = none ∨
    entry = cl.http.channel_.holder_ at eq
  by_cases same : ℓ = cl.http.loop_
  · subst same
    have stored : ((r.store c s).loops cl.http.loop_).epoll = s.epoll := by
      rw [← loop_, store_epoll]
    rw [stored, table]
    by_cases here : fd = cl.http.fd_
    · subst here
      rw [update_self]
      constructor
      · intro is
        rcases eq with old | gone | own
        · exact .inl (old.symm.trans is)
        · cases gone.symm.trans is
        · exact .inr ⟨rfl, rfl, (Option.some.inj ((own.trans holder).symm.trans is)).symm⟩
      · intro other old
        exact absurd (sound.own_entry alive old) other
    · rw [update_of_ne here]
      exact ⟨.inl, fun _ => id⟩
  · rw [store_of_ne r c (loop_ ▸ same)]
    exact ⟨.inl, fun _ => id⟩

/-- An entry is at the descriptor of the connection, or one of another connection that was there
before. -/
theorem store_entry (sound : r.Sound) (alive : r.conns c = some cl)
    (effect : TableEffect (cl.conn a (r.loops cl.http.loop_).epoll) s) {ℓ : LoopId} {fd : Fd}
    {d : ConnId} (entry : ((r.store c s).loops ℓ).epoll.fd2http_ fd = some d) :
    d = c ∧ ℓ = cl.http.loop_ ∧ fd = cl.http.fd_ ∨
      d ≠ c ∧ (r.loops ℓ).epoll.fd2http_ fd = some d := by
  by_cases same : d = c
  · subst same
    rcases (sound.store_entries alive effect ℓ fd d).1 entry with old | ⟨loop, here, _⟩
    · exact .inl ⟨rfl, sound.http_at alive old⟩
    · exact .inl ⟨rfl, loop, here⟩
  · rcases (sound.store_entries alive effect ℓ fd d).1 entry with old | ⟨_, _, own⟩
    · exact .inr ⟨same, old⟩
    · exact absurd own same

/-- What a handler leaves behind is sound. The connection is not waiting to be handled,
and where it enters the table it is not waiting to enter it again. -/
theorem store (sound : r.Sound) (alive : r.conns c = some cl)
    (effect : TableEffect (cl.conn a (r.loops cl.http.loop_).epoll) s)
    (idle : ∀ ℓ, c ∉ (r.loops ℓ).point.ret)
    (once : s.epoll.fd2http_ cl.http.fd_ = some c →
      (r.loops cl.http.loop_).epoll.fd2http_ cl.http.fd_ = some c ∨
      ∀ ℓ, c ∉ (r.loops ℓ).point.waiting ++ (r.loops ℓ).pendingFunctors_) :
    (r.store c s).Sound := by
  have this : s.http.this = cl.http.this := effect.this
  have loop_ : s.http.loop_ = cl.http.loop_ := effect.loop_
  have fd_ : s.http.fd_ = cl.http.fd_ := effect.fd_
  have holder_ : s.http.channel_.holder_ = cl.http.channel_.holder_ := effect.holder_
  have named := sound.named c cl alive
  have entries := sound.store_entries alive effect
  have point (ℓ) : ((r.store c s).loops ℓ).point = (r.loops ℓ).point := setEpoll_point r _ _ ℓ
  have pending (ℓ) : ((r.store c s).loops ℓ).pendingFunctors_ = (r.loops ℓ).pendingFunctors_ :=
    setEpoll_pending r _ _ ℓ
  have stored : ((r.store c s).loops cl.http.loop_).epoll = s.epoll := by
    rw [← loop_, store_epoll]
  have own : (r.store c s).conns c = some ⟨s.http, s.wire⟩ := update_self _ _ _
  have others {d} (other : d ≠ c) : (r.store c s).conns d = r.conns d := update_of_ne other _ _
  -- Every connection keeps its members that matter here.
  have before {d dl} (alive' : (r.store c s).conns d = some dl) : ∃ old, r.conns d = some old ∧
      dl.http.this = old.http.this ∧ dl.http.loop_ = old.http.loop_ ∧ dl.http.fd_ = old.http.fd_ ∧
      dl.http.channel_.holder_ = old.http.channel_.holder_ := by
    rcases of_update_some alive' with ⟨rfl, rfl⟩ | ⟨_, alive'⟩
    · exact ⟨cl, alive, this, loop_, fd_, holder_⟩
    · exact ⟨dl, alive', rfl, rfl, rfl, rfl⟩
  have after {d dl} (alive' : r.conns d = some dl) : ∃ new, (r.store c s).conns d = some new ∧
      new.http.loop_ = dl.http.loop_ ∧ new.http.fd_ = dl.http.fd_ := by
    by_cases same : d = c
    · subst same
      cases alive.symm.trans alive'
      exact ⟨_, own, loop_, fd_⟩
    · exact ⟨dl, by rw [others same]; exact alive', rfl, rfl⟩
  have lives {d ℓ} (alive' : r.Lives d ℓ) : (r.store c s).Lives d ℓ := by
    obtain ⟨dl, alive', loop⟩ := alive'
    obtain ⟨new, stored, loop', _⟩ := after alive'
    exact ⟨new, stored, loop'.trans loop⟩
  constructor
  case named =>
    intro d dl alive'
    obtain ⟨old, alive', this, _, _, holder⟩ := before alive'
    rw [this, holder]
    exact sound.named d old alive'
  case opened =>
    intro d dl alive'
    obtain ⟨old, alive', _, _, fd, _⟩ := before alive'
    rw [fd]
    exact sound.opened d old alive'
  case distinct =>
    intro d e dl el alive₁ alive₂ same
    obtain ⟨old₁, alive₁, _, _, fd₁, _⟩ := before alive₁
    obtain ⟨old₂, alive₂, _, _, fd₂, _⟩ := before alive₂
    exact sound.distinct d e old₁ old₂ alive₁ alive₂ (fd₁.symm.trans (same.trans fd₂))
  case http =>
    intro ℓ fd d entry
    have found : ∃ dl, r.conns d = some dl ∧ dl.http.loop_ = ℓ ∧ dl.http.fd_ = fd := by
      rcases (entries ℓ fd d).1 entry with old | ⟨loop, here, same⟩
      · exact sound.http ℓ fd d old
      · exact ⟨cl, same ▸ alive, loop.symm, here.symm⟩
    obtain ⟨dl, alive', loop, same⟩ := found
    obtain ⟨new, stored, loop', fd'⟩ := after alive'
    exact ⟨new, stored, loop'.trans loop, fd'.trans same⟩
  case chan =>
    intro ℓ fd d entry
    by_cases same : ℓ = cl.http.loop_
    · subst same
      rw [stored] at entry ⊢
      obtain ⟨slot, table, eq⟩ := effect.chan
      rw [table] at entry
      change update (r.loops cl.http.loop_).epoll.fd2chan_ cl.http.fd_ slot fd = some d at entry
      change slot = none ∨ (slot = (r.loops cl.http.loop_).epoll.fd2chan_ cl.http.fd_ ∧
        s.epoll.fd2http_ cl.http.fd_ = (r.loops cl.http.loop_).epoll.fd2http_ cl.http.fd_) ∨
        (slot = some cl.http.this ∧ s.epoll.fd2http_ cl.http.fd_ = cl.http.channel_.holder_) at eq
      by_cases here : fd = cl.http.fd_
      · subst here
        rw [update_self] at entry
        -- The handler has cleared the slot, left both tables, or entered the connection in both.
        rcases eq with gone | ⟨old, kept⟩ | ⟨new, added⟩
        · cases gone.symm.trans entry
        · rw [kept]
          exact sound.chan _ _ d (old.symm.trans entry)
        · have is := Option.some.inj (new.symm.trans entry)
          rw [added, named.2.1, ← is, named.1]
      · rw [update_of_ne here] at entry
        obtain ⟨_, http, _⟩ := effect.http
        rw [http]
        exact (update_of_ne here _ _).trans (sound.chan _ fd d entry)
    · rw [store_of_ne r c (loop_ ▸ same)] at entry ⊢
      exact sound.chan ℓ fd d entry
  case timers =>
    intro ℓ node queued d refers
    by_cases same : ℓ = cl.http.loop_
    · subst same
      rw [stored] at queued
      -- A node the handler has queued refers to its own connection, an older one is as it was.
      rcases effect.refs node queued d refers with own | ⟨old, queued, refers⟩
      · have same : d = c := own.trans named.1
        exact lives ⟨cl, same ▸ alive, rfl⟩
      · exact lives (sound.timers _ old queued d refers)
    · rw [store_of_ne r c (loop_ ▸ same)] at queued
      exact lives (sound.timers ℓ node queued d refers)
  case bound =>
    intro ℓ d member
    rw [pending, point] at member
    exact lives (sound.bound ℓ d member)
  case fresh =>
    intro ℓ
    rw [pending, point]
    refine ⟨(sound.fresh ℓ).1, fun d member fd entry => ?_⟩
    rcases (entries ℓ fd d).1 entry with old | ⟨rfl, rfl, rfl⟩
    · exact (sound.fresh ℓ).2 d member fd old
    · rw [stored] at entry
      -- The connection is in the table now, so it must not wait to enter it.
      rcases once entry with old | new
      · exact (sound.fresh _).2 _ member _ old
      · exact new _ member
  case ret =>
    intro ℓ
    rw [point]
    refine ⟨(sound.ret ℓ).1, fun d member => ?_⟩
    obtain ⟨fd, entry⟩ := (sound.ret ℓ).2 d member
    -- Channels still to be handled are those of other connections, whose entries stay.
    have other : d ≠ c := fun same => idle ℓ (same ▸ member)
    exact ⟨fd, (entries ℓ fd d).2 other entry⟩
  case local_ =>
    intro d held
    obtain ⟨dl, alive'⟩ := sound.local_ d held
    obtain ⟨new, stored, _⟩ := after alive'
    exact ⟨new, stored⟩

/-! ### The other operations -/

/-- `Sound` reads of the connections their names, loops and descriptors, and of the loops
their entries, the references of their nodes, and their queues. -/
theorem congr {r' : Reactor} (sound : r.Sound)
    (before : ∀ d dl, r'.conns d = some dl → ∃ old, r.conns d = some old ∧
      dl.http.this = old.http.this ∧ dl.http.loop_ = old.http.loop_ ∧
      dl.http.fd_ = old.http.fd_ ∧ dl.http.channel_.holder_ = old.http.channel_.holder_)
    (after : ∀ d dl, r.conns d = some dl → ∃ new, r'.conns d = some new ∧
      new.http.loop_ = dl.http.loop_ ∧ new.http.fd_ = dl.http.fd_)
    (count : r'.nextConn = r.nextConn) (isOpen : r'.isOpen = r.isOpen)
    (req_info : r'.req_info = r.req_info)
    (fd2http_ : ∀ ℓ, (r'.loops ℓ).epoll.fd2http_ = (r.loops ℓ).epoll.fd2http_)
    (fd2chan_ : ∀ ℓ, (r'.loops ℓ).epoll.fd2chan_ = (r.loops ℓ).epoll.fd2chan_)
    (refs : ∀ ℓ, ∀ node ∈ (r'.loops ℓ).epoll.timerManager_.timerNodeQueue,
      node ∈ (r.loops ℓ).epoll.timerManager_.timerNodeQueue)
    (pending : ∀ ℓ, (r'.loops ℓ).pendingFunctors_ = (r.loops ℓ).pendingFunctors_)
    (point : ∀ ℓ, (r'.loops ℓ).point = (r.loops ℓ).point) : r'.Sound := by
  have lives {d ℓ} (alive : r.Lives d ℓ) : r'.Lives d ℓ := by
    obtain ⟨dl, alive, loop⟩ := alive
    obtain ⟨new, alive', loop', _⟩ := after d dl alive
    exact ⟨new, alive', loop'.trans loop⟩
  constructor
  case named =>
    intro d dl alive
    obtain ⟨old, alive, this, _, _, holder⟩ := before d dl alive
    rw [this, holder, count]
    exact sound.named d old alive
  case opened =>
    intro d dl alive
    obtain ⟨old, alive, _, _, fd, _⟩ := before d dl alive
    rw [isOpen, fd]
    exact sound.opened d old alive
  case distinct =>
    intro d e dl el alive₁ alive₂ same
    obtain ⟨old₁, alive₁, _, _, fd₁, _⟩ := before d dl alive₁
    obtain ⟨old₂, alive₂, _, _, fd₂, _⟩ := before e el alive₂
    exact sound.distinct d e old₁ old₂ alive₁ alive₂ (fd₁.symm.trans (same.trans fd₂))
  case http =>
    intro ℓ fd d entry
    rw [fd2http_] at entry
    obtain ⟨dl, alive, loop, same⟩ := sound.http ℓ fd d entry
    obtain ⟨new, alive', loop', fd'⟩ := after d dl alive
    exact ⟨new, alive', loop'.trans loop, fd'.trans same⟩
  case chan =>
    intro ℓ fd d entry
    rw [fd2chan_] at entry
    rw [fd2http_]
    exact sound.chan ℓ fd d entry
  case timers =>
    intro ℓ node queued d refers
    exact lives (sound.timers ℓ node (refs ℓ node queued) d refers)
  case bound =>
    intro ℓ d member
    rw [pending, point] at member
    exact lives (sound.bound ℓ d member)
  case fresh =>
    intro ℓ
    rw [pending, point, fd2http_]
    exact sound.fresh ℓ
  case ret =>
    intro ℓ
    rw [point, fd2http_]
    exact sound.ret ℓ
  case local_ =>
    intro d held
    rw [req_info] at held
    obtain ⟨dl, alive⟩ := sound.local_ d held
    obtain ⟨new, alive', _⟩ := after d dl alive
    exact ⟨new, alive'⟩

/-- A loop goes on to another point. -/
theorem setPoint (sound : r.Sound) {ℓ : LoopId} {point : LoopPoint}
    (bound : ∀ c ∈ point.bound, r.Lives c ℓ)
    (fresh : (point.waiting ++ (r.loops ℓ).pendingFunctors_).Nodup ∧
      ∀ c ∈ point.waiting, ∀ fd, (r.loops ℓ).epoll.fd2http_ fd ≠ some c)
    (ret : point.ret.Nodup ∧ ∀ c ∈ point.ret, ∃ fd, (r.loops ℓ).epoll.fd2http_ fd = some c) :
    (r.setPoint ℓ point).Sound := by
  constructor
  case named => exact sound.named
  case opened => exact sound.opened
  case distinct => exact sound.distinct
  case http => intro ℓ'; rw [setPoint_epoll]; exact sound.http ℓ'
  case chan => intro ℓ'; rw [setPoint_epoll]; exact sound.chan ℓ'
  case timers => intro ℓ'; rw [setPoint_epoll]; exact sound.timers ℓ'
  case bound =>
    intro ℓ' c member
    by_cases same : ℓ' = ℓ
    · subst same
      rw [setPoint_pending, setPoint_point, List.mem_append] at member
      rcases member with pending | member
      · exact sound.bound ℓ' c (List.mem_append_left _ pending)
      · exact bound c member
    · rw [setPoint_of_ne r ℓ same] at member
      exact sound.bound ℓ' c member
  case fresh =>
    intro ℓ'
    by_cases same : ℓ' = ℓ
    · subst same
      rw [setPoint_pending, setPoint_point, setPoint_epoll]
      refine ⟨fresh.1, fun c member => ?_⟩
      rcases List.mem_append.mp member with waits | pending
      · exact fresh.2 c waits
      · exact (sound.fresh ℓ').2 c (List.mem_append_right _ pending)
    · rw [setPoint_of_ne r ℓ same]
      exact sound.fresh ℓ'
  case ret =>
    intro ℓ'
    by_cases same : ℓ' = ℓ
    · subst same
      rw [setPoint_point, setPoint_epoll]
      exact ret
    · rw [setPoint_of_ne r ℓ same]
      exact sound.ret ℓ'
  case local_ => exact sound.local_

/-- A loop goes on to a point without functors or channels. -/
theorem rest (sound : r.Sound) (ℓ : LoopId) {point : LoopPoint} (bound : point.bound = [])
    (ret : point.ret = []) : (r.setPoint ℓ point).Sound := by
  -- Without functors there is none that waits for `newEvent`.
  have waiting : point.waiting = [] := List.subset_nil.mp (bound ▸ waiting_subset point)
  have pending := (sound.fresh ℓ).1.sublist (List.sublist_append_right _ _)
  refine sound.setPoint ?_ ⟨?_, ?_⟩ ⟨?_, ?_⟩
  · rw [bound]; nofun
  · rw [waiting]; exact pending
  · rw [waiting]; nofun
  · rw [ret]; exact List.nodup_nil
  · rw [ret]; nofun

/-- `req_info` goes out of scope. -/
theorem forget (sound : r.Sound) : Sound { r with req_info := none } :=
  ⟨sound.named, sound.opened, sound.distinct, sound.http, sound.chan, sound.timers, sound.bound,
    sound.fresh, sound.ret, fun _ held => by cases held⟩

/-- Destroying what nothing refers to. -/
theorem release (sound : r.Sound) (c : ConnId) : (r.release c).Sound := by
  unfold Reactor.release
  cases alive : r.conns c with
  | none => exact sound
  | some cl =>
    dsimp only
    split
    next => exact sound
    -- `loose` says that neither a table, a node, a queue nor `req_info` refers to it.
    next loose =>
      have tables := setInterest_loop r cl.http.loop_
        (update (r.loops cl.http.loop_).epoll.interest cl.http.fd_ none)
      generalize update (r.loops cl.http.loop_).epoll.interest cl.http.fd_ none = interest at tables ⊢
      have own {d ℓ} (lives : r.Lives d ℓ) (same : d = c) : ℓ = cl.http.loop_ :=
        lives_unique (same ▸ lives) ⟨cl, alive, rfl⟩
      have stays {d dl} (other : d ≠ c) (alive' : r.conns d = some dl) :
          update r.conns c none d = some dl := by
        rw [update_of_ne other]; exact alive'
      -- Nothing that refers to a connection refers to this one.
      have unlisted {ℓ fd d} (entry : (r.loops ℓ).epoll.fd2http_ fd = some d) : d ≠ c := by
        rintro rfl
        obtain ⟨rfl, rfl⟩ := sound.http_at alive entry
        exact loose (.inl entry)
      have unbound {ℓ d} (member : d ∈ (r.loops ℓ).pendingFunctors_ ++ (r.loops ℓ).point.bound) :
          d ≠ c := by
        intro same
        have here := own (sound.bound ℓ d member) same
        subst here same
        rcases List.mem_append.mp member with pending | bound
        · exact loose (.inr (.inr (.inl pending)))
        · exact loose (.inr (.inr (.inr (.inl bound))))
      have lives {d ℓ} (lives : r.Lives d ℓ) (other : d ≠ c) :
          ∃ dl, update r.conns c none d = some dl ∧ dl.http.loop_ = ℓ := by
        obtain ⟨dl, alive', loop⟩ := lives
        exact ⟨dl, stays other alive', loop⟩
      constructor
      case named => exact fun d dl alive' => sound.named d dl (of_update_none alive').2
      case opened =>
        intro d dl alive'
        obtain ⟨other, alive'⟩ := of_update_none alive'
        -- Its descriptor is closed, and no other connection has that one.
        have elsewhere : dl.http.fd_ ≠ cl.http.fd_ :=
          fun same => other (sound.distinct d c dl cl alive' alive same)
        change update r.isOpen cl.http.fd_ false dl.http.fd_ = true
        rw [update_of_ne elsewhere]
        exact sound.opened d dl alive'
      case distinct =>
        exact fun d e dl el alive₁ alive₂ =>
          sound.distinct d e dl el (of_update_none alive₁).2 (of_update_none alive₂).2
      case http =>
        intro ℓ fd d entry
        change ((r.setEpoll _ _).loops ℓ).epoll.fd2http_ fd = some d at entry
        rw [(tables ℓ).fd2http_] at entry
        obtain ⟨dl, alive', at_⟩ := sound.http ℓ fd d entry
        exact ⟨dl, stays (unlisted entry) alive', at_⟩
      case chan =>
        intro ℓ fd d entry
        change ((r.setEpoll _ _).loops ℓ).epoll.fd2chan_ fd = some d at entry
        change ((r.setEpoll _ _).loops ℓ).epoll.fd2http_ fd = some d
        rw [(tables ℓ).fd2chan_] at entry
        rw [(tables ℓ).fd2http_]
        exact sound.chan ℓ fd d entry
      case timers =>
        intro ℓ node queued d refers
        change node ∈ ((r.setEpoll _ _).loops ℓ).epoll.timerManager_.timerNodeQueue at queued
        rw [(tables ℓ).timerManager_] at queued
        refine lives (sound.timers ℓ node queued d refers) fun same => ?_
        have here := own (sound.timers ℓ node queued d refers) same
        subst here same
        exact loose (.inr (.inl ⟨node, queued, refers⟩))
      case bound =>
        intro ℓ d member
        change d ∈ ((r.setEpoll _ _).loops ℓ).pendingFunctors_ ++
          ((r.setEpoll _ _).loops ℓ).point.bound at member
        rw [setEpoll_pending, setEpoll_point] at member
        exact lives (sound.bound ℓ d member) (unbound member)
      case fresh =>
        intro ℓ
        change (((r.setEpoll _ _).loops ℓ).point.waiting ++
          ((r.setEpoll _ _).loops ℓ).pendingFunctors_).Nodup ∧
          ∀ d ∈ ((r.setEpoll _ _).loops ℓ).point.waiting ++
            ((r.setEpoll _ _).loops ℓ).pendingFunctors_, ∀ fd,
            ((r.setEpoll _ _).loops ℓ).epoll.fd2http_ fd ≠ some d
        rw [setEpoll_pending, setEpoll_point, (tables ℓ).fd2http_]
        exact sound.fresh ℓ
      case ret =>
        intro ℓ
        change ((r.setEpoll _ _).loops ℓ).point.ret.Nodup ∧
          ∀ d ∈ ((r.setEpoll _ _).loops ℓ).point.ret, ∃ fd,
            ((r.setEpoll _ _).loops ℓ).epoll.fd2http_ fd = some d
        rw [setEpoll_point, (tables ℓ).fd2http_]
        exact sound.ret ℓ
      case local_ =>
        intro d held
        obtain ⟨dl, alive'⟩ := sound.local_ d held
        refine ⟨dl, stays (fun same => ?_) alive'⟩
        exact loose (.inr (.inr (.inr (.inr (same ▸ held)))))

/-- Handing out one event. -/
theorem report (sound : r.Sound) (ℓ : LoopId) (e : Fd × Ready) : (Reactor.report ℓ r e).Sound := by
  have same (ℓ' : LoopId) := report_loop r ℓ e ℓ'
  apply sound.congr
  · intro d dl alive
    obtain ⟨old, alive', rfl | rfl⟩ := report_some r ℓ alive
    · exact ⟨dl, alive', rfl, rfl, rfl, rfl⟩
    · exact ⟨old, alive', rfl, rfl, rfl, rfl⟩
  · intro d dl alive
    rw [report_conns, alive]
    split
    · exact ⟨_, rfl, rfl, rfl⟩
    · exact ⟨dl, rfl, rfl, rfl⟩
  · unfold Reactor.report; dsimp only; split <;> rfl
  · unfold Reactor.report; dsimp only; split <;> rfl
  · unfold Reactor.report; dsimp only; split <;> rfl
  · exact fun ℓ' => (same ℓ').fd2http_
  · exact fun ℓ' => (same ℓ').fd2chan_
  · intro ℓ' node queued
    rw [(same ℓ').timerManager_] at queued
    exact queued
  · exact fun ℓ' => (same ℓ').pendingFunctors_
  · exact fun ℓ' => (same ℓ').point

theorem reports (sound : r.Sound) (ℓ : LoopId) (events : List (Fd × Ready)) :
    (events.foldl (Reactor.report ℓ) r).Sound := by
  induction events generalizing r with
  | nil => exact sound
  | cons e events ih => exact ih (sound.report ℓ e)

/-- Popping a node. -/
theorem pop (sound : r.Sound) (ℓ : LoopId) (id : TimerId) :
    (r.pop ℓ id).Sound := by
  unfold Reactor.pop
  apply sound.congr
  · exact fun d dl alive => ⟨dl, alive, rfl, rfl, rfl, rfl⟩
  · exact fun d dl alive => ⟨dl, alive, rfl, rfl⟩
  · rfl
  · rfl
  · rfl
  · intro ℓ'
    by_cases same : ℓ' = ℓ
    · subst same; simp
    · rw [setEpoll_of_ne r ℓ same]
  · intro ℓ'
    by_cases same : ℓ' = ℓ
    · subst same; simp
    · rw [setEpoll_of_ne r ℓ same]
  · intro ℓ' node queued
    by_cases same : ℓ' = ℓ
    · subst same
      rw [setEpoll_epoll] at queued
      exact List.mem_of_mem_filter queued
    · rw [setEpoll_of_ne r ℓ same] at queued
      exact queued
  · exact setEpoll_pending r ℓ _
  · exact setEpoll_point r ℓ _

/-- `accept` hands out a descriptor that was closed. -/
theorem accept (sound : r.Sound) {fd : Fd} (closed : r.isOpen fd = false) (ℓ : LoopId)
    (nonBlocking : Bool) : (r.acceptConn fd ℓ nonBlocking).Sound := by
  have stays {d dl} (alive : r.conns d = some dl) : d ≠ r.nextConn :=
    Nat.ne_of_lt (sound.named d dl alive).2.2
  -- The kernel hands out no descriptor that is open, so no connection has this one.
  have elsewhere {d dl} (alive : r.conns d = some dl) : dl.http.fd_ ≠ fd := by
    intro same
    have opened := sound.opened d dl alive
    rw [same, closed] at opened
    cases opened
  have opened {d dl} (alive : r.conns d = some dl) :
      update r.isOpen fd true dl.http.fd_ = true := by
    rw [update_of_ne (elsewhere alive)]
    exact sound.opened d dl alive
  unfold acceptConn
  split
  next => exact sound
  next =>
    dsimp only
    split
    next =>
      -- The descriptor stays open for good, without a connection.
      exact ⟨sound.named, fun d dl => opened, sound.distinct, sound.http, sound.chan,
        sound.timers, sound.bound, sound.fresh, sound.ret, sound.local_⟩
    next =>
      have loops := queueInLoop_loop r ℓ r.nextConn
      have kept {d dl} (alive : r.conns d = some dl) :
          update r.conns r.nextConn (some ⟨.new r.nextConn ℓ fd, .idle⟩) d = some dl := by
        rw [update_of_ne (stays alive)]
        exact alive
      have lives {d ℓ'} (lives : r.Lives d ℓ') : d ≠ r.nextConn ∧ ∃ dl,
          update r.conns r.nextConn (some ⟨.new r.nextConn ℓ fd, .idle⟩) d = some dl ∧
          dl.http.loop_ = ℓ' := by
        obtain ⟨dl, alive, loop⟩ := lives
        exact ⟨stays alive, dl, kept alive, loop⟩
      constructor
      case named =>
        intro d dl alive
        rcases of_update_some alive with ⟨rfl, rfl⟩ | ⟨_, old⟩
        · exact ⟨rfl, rfl, Nat.lt_succ_self _⟩
        · obtain ⟨this, holder, before⟩ := sound.named d dl old
          exact ⟨this, holder, Nat.lt_succ_of_lt before⟩
      case opened =>
        intro d dl alive
        rcases of_update_some alive with ⟨rfl, rfl⟩ | ⟨_, old⟩
        · exact update_self _ _ _
        · exact opened old
      case distinct =>
        intro d e dl el alive₁ alive₂ same
        rcases of_update_some alive₁ with ⟨rfl, rfl⟩ | ⟨_, old₁⟩ <;>
          rcases of_update_some alive₂ with ⟨rfl, rfl⟩ | ⟨_, old₂⟩
        · rfl
        · exact absurd same.symm (elsewhere old₂)
        · exact absurd same (elsewhere old₁)
        · exact sound.distinct d e dl el old₁ old₂ same
      case http =>
        intro ℓ' fd' d entry
        change ((r.queueInLoop ℓ r.nextConn).loops ℓ').epoll.fd2http_ fd' = some d at entry
        rw [(loops ℓ').1] at entry
        obtain ⟨dl, alive, at_⟩ := sound.http ℓ' fd' d entry
        exact ⟨dl, kept alive, at_⟩
      case chan =>
        intro ℓ' fd' d
        change ((r.queueInLoop ℓ r.nextConn).loops ℓ').epoll.fd2chan_ fd' = some d →
          ((r.queueInLoop ℓ r.nextConn).loops ℓ').epoll.fd2http_ fd' = some d
        rw [(loops ℓ').1]
        exact sound.chan ℓ' fd' d
      case timers =>
        intro ℓ' node queued d refers
        change node ∈ ((r.queueInLoop ℓ r.nextConn).loops ℓ').epoll.timerManager_.timerNodeQueue
          at queued
        rw [(loops ℓ').1] at queued
        exact (lives (sound.timers ℓ' node queued d refers)).2
      case bound =>
        intro ℓ' d member
        change d ∈ ((r.queueInLoop ℓ r.nextConn).loops ℓ').pendingFunctors_ ++
          ((r.queueInLoop ℓ r.nextConn).loops ℓ').point.bound at member
        rw [(loops ℓ').2.1, (loops ℓ').2.2, List.append_assoc, List.mem_append,
          List.mem_append] at member
        -- The functor that was queued is the only new reference, and it is to the new connection.
        rcases member with pending | new | bound
        · exact (lives (sound.bound ℓ' d (List.mem_append_left _ pending))).2
        · split at new
          next same =>
            rw [List.mem_singleton] at new
            subst new same
            exact ⟨_, update_self _ _ _, rfl⟩
          next => cases new
        · exact (lives (sound.bound ℓ' d (List.mem_append_right _ bound))).2
      case fresh =>
        intro ℓ'
        change (((r.queueInLoop ℓ r.nextConn).loops ℓ').point.waiting ++
          ((r.queueInLoop ℓ r.nextConn).loops ℓ').pendingFunctors_).Nodup ∧
          ∀ d ∈ ((r.queueInLoop ℓ r.nextConn).loops ℓ').point.waiting ++
            ((r.queueInLoop ℓ r.nextConn).loops ℓ').pendingFunctors_, ∀ fd',
            ((r.queueInLoop ℓ r.nextConn).loops ℓ').epoll.fd2http_ fd' ≠ some d
        rw [(loops ℓ').1, (loops ℓ').2.1, (loops ℓ').2.2, ← List.append_assoc]
        -- A connection made only now waits in no loop and is in no table.
        have new : r.nextConn ∉ (r.loops ℓ').point.waiting ++ (r.loops ℓ').pendingFunctors_ := by
          intro member
          exact (lives (sound.waits_live member)).1 rfl
        have unlisted (fd') : (r.loops ℓ').epoll.fd2http_ fd' ≠ some r.nextConn := by
          intro entry
          obtain ⟨dl, alive, _⟩ := sound.http ℓ' fd' _ entry
          exact stays alive rfl
        obtain ⟨nodup, none_⟩ := sound.fresh ℓ'
        split
        · refine ⟨nodup.append (List.nodup_singleton _) (by simpa using new), fun d member fd' => ?_⟩
          rcases List.mem_append.mp member with old | last
          · exact none_ d old fd'
          · rw [List.mem_singleton.mp last]
            exact unlisted fd'
        · rw [List.append_nil]
          exact ⟨nodup, none_⟩
      case ret =>
        intro ℓ'
        change ((r.queueInLoop ℓ r.nextConn).loops ℓ').point.ret.Nodup ∧
          ∀ d ∈ ((r.queueInLoop ℓ r.nextConn).loops ℓ').point.ret, ∃ fd',
            ((r.queueInLoop ℓ r.nextConn).loops ℓ').epoll.fd2http_ fd' = some d
        rw [(loops ℓ').1, (loops ℓ').2.1]
        exact sound.ret ℓ'
      case local_ =>
        intro d held
        cases held
        exact ⟨_, update_self _ _ _⟩

/-- The vector of functors is taken over as it stands. -/
theorem swap (sound : r.Sound) {ℓ : LoopId} (point : (r.loops ℓ).point = .handling []) :
    (r.swapFunctors ℓ).Sound := by
  have elsewhere {ℓ' : LoopId} (other : ℓ' ≠ ℓ) :
      (r.swapFunctors ℓ).loops ℓ' = r.loops ℓ' := by simp [swapFunctors, other]
  have here : (r.swapFunctors ℓ).loops ℓ = { r.loops ℓ with
      point := .functors [] (r.loops ℓ).pendingFunctors_, pendingFunctors_ := [] } := by
    simp [swapFunctors]
  -- What was pending now waits at the point of the loop.
  obtain ⟨nodup, unlisted⟩ := sound.fresh ℓ
  rw [point] at nodup unlisted
  constructor
  case named => exact sound.named
  case opened => exact sound.opened
  case distinct => exact sound.distinct
  case http => intro ℓ'; rw [swapFunctors_epoll]; exact sound.http ℓ'
  case chan => intro ℓ'; rw [swapFunctors_epoll]; exact sound.chan ℓ'
  case timers => intro ℓ'; rw [swapFunctors_epoll]; exact sound.timers ℓ'
  case bound =>
    intro ℓ' c member
    by_cases same : ℓ' = ℓ
    · subst same
      rw [here] at member
      exact sound.bound ℓ' c (List.mem_append_left _ member)
    · rw [elsewhere same] at member
      exact sound.bound ℓ' c member
  case fresh =>
    intro ℓ'
    by_cases same : ℓ' = ℓ
    · subst same
      rw [here]
      dsimp only [LoopPoint.waiting] at nodup unlisted ⊢
      rw [List.append_nil]
      exact ⟨nodup, unlisted⟩
    · rw [elsewhere same]
      exact sound.fresh ℓ'
  case ret =>
    intro ℓ'
    by_cases same : ℓ' = ℓ
    · subst same
      rw [here]
      exact ⟨List.nodup_nil, fun c member => by cases member⟩
    · rw [elsewhere same]
      exact sound.ret ℓ'
  case local_ => exact sound.local_

theorem releases (sound : r.Sound) (cs : List ConnId) : (cs.foldl Reactor.release r).Sound := by
  induction cs generalizing r with
  | nil => exact sound
  | cons c cs ih => exact ih (sound.release c)

/-! ### A step -/

/-- The channels handed out are those of different connections. -/
theorem poll (sound : r.Sound) {ℓ : LoopId} {events : List (Fd × Ready)}
    (once : (events.map (·.1)).Nodup) (woken : Bool) : (r.pollEvents ℓ events woken).Sound := by
  -- Different descriptors have channels of different connections.
  have unique : (events.filterMap fun e => (r.loops ℓ).epoll.fd2chan_ e.1).Nodup := by
    have eq := List.filterMap_map (f := fun e : Fd × Ready => e.1)
      (g := (r.loops ℓ).epoll.fd2chan_) (l := events)
    refine eq ▸ once.filterMap fun fd fd' c entry entry' => ?_
    obtain ⟨cl, alive, _, same⟩ := sound.http ℓ fd c (sound.chan ℓ fd c entry)
    obtain ⟨_, rfl⟩ := sound.http_at alive (sound.chan ℓ fd' c entry')
    exact same.symm
  obtain ⟨http, _, _, pending, point⟩ := reports_loop r ℓ events ℓ
  have reported := sound.reports ℓ events
  have waiting := (sound.fresh ℓ).1.sublist (List.sublist_append_right _ _)
  unfold pollEvents
  dsimp only
  split
  · exact reported.setPoint nofun ⟨by rw [pending]; exact waiting, nofun⟩ ⟨List.nodup_nil, nofun⟩
  · refine reported.setPoint nofun ⟨by rw [pending]; exact waiting, nofun⟩ ⟨unique, ?_⟩
    intro c member
    obtain ⟨e, _, entry⟩ := List.mem_filterMap.mp member
    exact ⟨e.1, by rw [http]; exact sound.chan ℓ e.1 c entry⟩

/-- `for (auto& it : ret)` goes on to the next channel. -/
theorem nextHandler (sound : r.Sound) {ℓ : LoopId} {ret : List ConnId}
    (point : (r.loops ℓ).point = .handling (c :: ret)) : (r.setPoint ℓ (.handling ret)).Sound := by
  obtain ⟨nodup, listed⟩ := sound.ret ℓ
  rw [point] at nodup listed
  exact sound.setPoint nofun ⟨(sound.fresh ℓ).1.sublist (List.sublist_append_right _ _), nofun⟩
    ⟨nodup.of_cons, fun d member => listed d (List.mem_cons_of_mem _ member)⟩

/-- `doPendingFunctors` goes on to the next functor. -/
theorem nextFunctor (sound : r.Sound) {ℓ : LoopId} {done rest : List ConnId}
    (point : (r.loops ℓ).point = .functors done (c :: rest)) :
    (r.setPoint ℓ (.functors (done ++ [c]) rest)).Sound := by
  obtain ⟨nodup, unlisted⟩ := sound.fresh ℓ
  rw [point] at nodup unlisted
  refine sound.setPoint ?_ ⟨nodup.of_cons, ?_⟩ ⟨List.nodup_nil, nofun⟩
  · intro d member
    refine sound.bound ℓ d (List.mem_append_right _ ?_)
    rw [point]
    simpa [LoopPoint.bound] using member
  · intro d waits
    exact unlisted d (List.mem_append_left _ (List.mem_cons_of_mem _ waits))


/-- A connection that its own loop is not about to handle, no loop is. -/
theorem idle (sound : r.Sound) (alive : r.conns c = some cl)
    (here : c ∉ (r.loops cl.http.loop_).point.ret) (ℓ : LoopId) : c ∉ (r.loops ℓ).point.ret := by
  intro member
  obtain ⟨fd, entry⟩ := (sound.ret ℓ).2 c member
  obtain ⟨rfl, _⟩ := sound.http_at alive entry
  exact here member

theorem settled (sound : r.Sound) (alive : r.conns c = some cl)
    (here : c ∉ (r.loops cl.http.loop_).point.waiting ++ (r.loops cl.http.loop_).pendingFunctors_)
    (ℓ : LoopId) : c ∉ (r.loops ℓ).point.waiting ++ (r.loops ℓ).pendingFunctors_ := by
  intro waits
  obtain rfl := lives_unique ⟨cl, alive, rfl⟩ (sound.waits_live waits)
  exact here waits

/-- `handleEvents` is called for a connection of this loop that is in its table. -/
theorem handle_inv (sound : r.Sound) {w : World} {r' : Reactor} {ℓ : LoopId} {ret : List ConnId}
    (point : (r.loops ℓ).point = .handling (c :: ret))
    (called : (r.setPoint ℓ (.handling ret)).call c a (handleEvents w) = some r') :
    ∃ cl, r.conns c = some cl ∧ cl.http.loop_ = ℓ ∧
      (r.loops ℓ).epoll.fd2http_ cl.http.fd_ = some c ∧
      r.handling (.handle ℓ a) = some (c, cl.conn a (r.loops ℓ).epoll) ∧
      (∀ ℓ', c ∉ ((r.setPoint ℓ (.handling ret)).loops ℓ').point.ret) ∧
      (∀ ℓ', c ∉ ((r.setPoint ℓ (.handling ret)).loops ℓ').point.waiting ++
        ((r.setPoint ℓ (.handling ret)).loops ℓ').pendingFunctors_) ∧
      r' = (r.setPoint ℓ (.handling ret)).store c (handleEvents w (cl.conn a (r.loops ℓ).epoll)) := by
  obtain ⟨cl, found, rfl⟩ := Option.map_eq_some_iff.mp called
  have alive : r.conns c = some cl := found
  obtain ⟨nodup, listed⟩ := sound.ret ℓ
  rw [point] at nodup listed
  -- A channel that was handed out is that of an entry of this very loop.
  obtain ⟨fd, entry⟩ := listed c (List.mem_cons_self ..)
  obtain ⟨rfl, rfl⟩ := sound.http_at alive entry
  have next := sound.nextHandler point
  refine ⟨cl, alive, rfl, entry, ?_, next.idle alive ?_, next.settled alive fun waits => ?_, ?_⟩
  · simp [handling, point, LoopPoint.ret, alive]
  · rw [setPoint_point]
    exact (List.nodup_cons.mp nodup).1
  · refine (next.fresh _).2 c waits cl.http.fd_ ?_
    rw [setPoint_epoll]
    exact entry
  · rw [setPoint_epoll]

/-- `newEvent` is called for a connection of this loop that waited to enter it. -/
theorem functor_inv (sound : r.Sound) {r' : Reactor} {ℓ : LoopId} {done rest : List ConnId}
    (point : (r.loops ℓ).point = .functors done (c :: rest))
    (called : (r.setPoint ℓ (.functors (done ++ [c]) rest)).call c a newEvent = some r') :
    ∃ cl, r.conns c = some cl ∧ cl.http.loop_ = ℓ ∧
      c ∈ (r.loops ℓ).point.waiting ++ (r.loops ℓ).pendingFunctors_ ∧
      (∀ ℓ', c ∉ ((r.setPoint ℓ (.functors (done ++ [c]) rest)).loops ℓ').point.ret) ∧
      (∀ ℓ', c ∉ ((r.setPoint ℓ (.functors (done ++ [c]) rest)).loops ℓ').point.waiting ++
        ((r.setPoint ℓ (.functors (done ++ [c]) rest)).loops ℓ').pendingFunctors_) ∧
      r' = (r.setPoint ℓ (.functors (done ++ [c]) rest)).store c
        (newEvent (cl.conn a (r.loops ℓ).epoll)) := by
  obtain ⟨cl, found, rfl⟩ := Option.map_eq_some_iff.mp called
  have alive : r.conns c = some cl := found
  -- `newEvent` was queued in the loop the connection was given to.
  have waits : c ∈ (r.loops ℓ).point.waiting ++ (r.loops ℓ).pendingFunctors_ := by
    rw [point]; simp [LoopPoint.waiting]
  have once := (sound.fresh ℓ).1
  rw [point] at once
  obtain rfl := lives_unique ⟨cl, alive, rfl⟩ (sound.waits_live waits)
  have next := sound.nextFunctor point
  refine ⟨cl, alive, rfl, waits, next.idle alive ?_, next.settled alive ?_, ?_⟩
  · rw [setPoint_point]
    nofun
  · rw [setPoint_point, setPoint_pending]
    exact (List.nodup_cons.mp once).1
  · rw [setPoint_epoll]

/-- `handleClose` is called for a connection of this loop that the node refers to. -/
theorem close_inv (sound : r.Sound) {r' : Reactor} {ℓ : LoopId} {node : TimerNode}
    (point : (r.loops ℓ).point = .expiring)
    (found : (r.loops ℓ).epoll.timerManager_.timerNodeQueue.find? (·.id = node.id) = some node)
    (refers : node.SPHttpData = some c)
    (called : (r.pop ℓ node.id).call c a handleClose = some r') :
    ∃ cl, r.conns c = some cl ∧ cl.http.loop_ = ℓ ∧
      (∀ ℓ', c ∉ ((r.pop ℓ node.id).loops ℓ').point.ret) ∧
      r' = (r.pop ℓ node.id).store c (handleClose (cl.conn a ((r.pop ℓ node.id).loops ℓ).epoll)) := by
  obtain ⟨cl, alive, rfl⟩ := Option.map_eq_some_iff.mp called
  have lives := sound.timers ℓ node (List.mem_of_find?_eq_some found) c refers
  obtain rfl := lives_unique ⟨cl, alive, rfl⟩ lives
  refine ⟨cl, alive, rfl, (sound.pop _ node.id).idle alive ?_, rfl⟩
  rw [pop_point, point]
  nofun

/-- The loop steps on, and the handler runs. -/
theorem handle (sound : r.Sound) {w : World} {r' : Reactor} {ℓ : LoopId} {ret : List ConnId}
    (point : (r.loops ℓ).point = .handling (c :: ret))
    (called : (r.setPoint ℓ (.handling ret)).call c a (handleEvents w) = some r') : r'.Sound := by
  obtain ⟨cl, alive, rfl, entry, _, idle, _, rfl⟩ := sound.handle_inv point called
  refine (sound.nextHandler point).store (a := a) alive ?_ idle fun _ => .inl ?_
  · rw [setPoint_epoll]
    exact handleEvents_effect w _
  · rw [setPoint_epoll]
    exact entry

theorem runFunctor (sound : r.Sound) {r' : Reactor} {ℓ : LoopId} {done rest : List ConnId}
    (point : (r.loops ℓ).point = .functors done (c :: rest))
    (called : (r.setPoint ℓ (.functors (done ++ [c]) rest)).call c a newEvent = some r') :
    r'.Sound := by
  obtain ⟨cl, alive, rfl, _, idle, settled, rfl⟩ := sound.functor_inv point called
  refine (sound.nextFunctor point).store (a := a) alive ?_ idle fun _ => .inr settled
  rw [setPoint_epoll]
  exact newEvent_effect _

theorem close (sound : r.Sound) {r' : Reactor} {ℓ : LoopId} {node : TimerNode}
    (point : (r.loops ℓ).point = .expiring)
    (found : (r.loops ℓ).epoll.timerManager_.timerNodeQueue.find? (·.id = node.id) = some node)
    (refers : node.SPHttpData = some c)
    (called : (r.pop ℓ node.id).call c a handleClose = some r') : r'.Sound := by
  obtain ⟨cl, alive, rfl, idle, rfl⟩ := sound.close_inv point found refers called
  have closed := handleClose_closed
    (cl.conn a ((r.pop cl.http.loop_ node.id).loops cl.http.loop_).epoll)
  refine (sound.pop _ node.id).store alive closed.effect idle fun stays => ?_
  -- `handleClose` has removed the entry.
  rw [closed.fd2http_] at stays
  cases (update_self _ _ _).symm.trans stays

theorem step {w : ConnId → World} (r : Reactor) (l : Label) (r' : Reactor) (sound : r.Sound)
    (taken : Reactor.step w r l = some r') : r'.Sound := by
  cases step_steps taken with
  | accept fd ℓ nonBlocking _ closed => exact sound.accept closed ℓ nonBlocking
  | accepted c _ => exact sound.forget.release c
  | poll ℓ events woken _ reported => exact sound.poll reported.1 woken
  -- Behind the handler the last reference may go.
  | handle ℓ a c ret r₁ point called => exact (sound.handle point called).release c
  | startFunctors ℓ point => exact sound.swap point
  | runFunctor ℓ a done c rest r₁ point called => exact sound.runFunctor point called
  | endFunctors ℓ done _ => exact (sound.rest ℓ rfl rfl).releases done
  | drop ℓ a node _ _ _ => exact sound.pop ℓ node.id
  | close ℓ a node c r₁ point found refers called =>
    exact (sound.close point found refers called).release c
  | endExpire ℓ now _ => exact sound.rest ℓ rfl rfl

end Sound

theorem reachable_sound {w : ConnId → World} {r : Reactor} (reached : (machine w).Reachable r) :
    r.Sound :=
  Machine.invariant (fun _ start => start ▸ sound_new) (fun r l r' => Sound.step r l r') reached

/-! ### What a step does to the entries -/

/-- A handler leaves the entries of other connections alone. -/
theorem call_entries {r r' : Reactor} (sound : r.Sound) {c : ConnId} {a : Arrival}
    {handler : Conn → Conn} (taken : r.call c a handler = some r')
    (effect : ∀ s, TableEffect s (handler s)) {ℓ : LoopId} {fd : Fd} {d : ConnId} (other : d ≠ c)
    (entry : (r.loops ℓ).epoll.fd2http_ fd = some d) :
    (r'.loops ℓ).epoll.fd2http_ fd = some d := by
  obtain ⟨cl, alive, rfl⟩ := Option.map_eq_some_iff.mp taken
  exact (sound.store_entries alive (effect _) ℓ fd d).2 other entry

theorem step_entries {w : ConnId → World} {r r' : Reactor} {l : Label} (sound : r.Sound)
    (taken : step w r l = some r') {ℓ : LoopId} {fd : Fd} {d : ConnId}
    (entry : (r.loops ℓ).epoll.fd2http_ fd = some d) :
    r.subject l = some d ∨ (r'.loops ℓ).epoll.fd2http_ fd = some d := by
  cases step_steps taken with
  | accept fd' ℓ' nonBlocking _ _ => exact .inr (by rw [acceptConn_epoll]; exact entry)
  | accepted c _ => exact .inr (by rw [(release_loop _ c ℓ).fd2http_]; exact entry)
  | poll ℓ' events woken _ _ =>
    refine .inr ?_
    unfold pollEvents
    rw [setPoint_epoll, (reports_loop r ℓ' events ℓ).fd2http_]
    exact entry
  | handle ℓ' a c ret r₁ point called =>
    by_cases same : d = c
    · exact .inl (by simp [subject, point, LoopPoint.ret, same])
    · refine .inr ?_
      rw [(release_loop r₁ c ℓ).fd2http_]
      exact call_entries (sound.nextHandler point) called (handleEvents_effect (w c)) same
        (by rw [setPoint_epoll]; exact entry)
  | startFunctors ℓ' _ => exact .inr (by rw [swapFunctors_epoll]; exact entry)
  | runFunctor ℓ' a done c rest r₁ point called =>
    by_cases same : d = c
    · exact .inl (by simp [subject, point, LoopPoint.waiting, same])
    · exact .inr (call_entries (sound.nextFunctor point) called newEvent_effect same
        (by rw [setPoint_epoll]; exact entry))
  | endFunctors ℓ' done _ =>
    refine .inr ?_
    rw [(releases_loop _ done ℓ).fd2http_, setPoint_epoll]
    exact entry
  | drop ℓ' a node _ _ _ => exact .inr (by rw [pop_fd2http_]; exact entry)
  | close ℓ' a node c r₁ _ found refers called =>
    by_cases same : d = c
    · exact .inl (by simp only [subject, found, Option.bind_some]; rw [refers, same])
    · refine .inr ?_
      rw [(release_loop r₁ c ℓ).fd2http_]
      exact call_entries (sound.pop ℓ' node.id) called (fun s => (handleClose_closed s).effect) same
        (by rw [pop_fd2http_]; exact entry)
  | endExpire ℓ' now _ => exact .inr (by rw [setPoint_epoll]; exact entry)

/-! ### Descriptor reuse -/

/-- What makes it safe that a descriptor number is handed out again. -/
structure DescriptorSafe (r : Reactor) : Prop where
  entry_open : ∀ ℓ fd c, (r.loops ℓ).epoll.fd2http_ fd = some c →
    ∃ cl, r.conns c = some cl ∧ cl.http.fd_ = fd ∧ r.isOpen fd = true
  one_loop : ∀ ℓ ℓ' fd, (r.loops ℓ).epoll.fd2http_ fd ≠ none →
    (r.loops ℓ').epoll.fd2http_ fd ≠ none → ℓ = ℓ'
  channel_listed : ∀ ℓ fd c, (r.loops ℓ).epoll.fd2chan_ fd = some c →
    (r.loops ℓ).epoll.fd2http_ fd = some c
  /-- where `newEvent` runs next there is no entry to overwrite -/
  add_free : ∀ ℓ, ∀ c ∈ (r.loops ℓ).point.waiting.head?, ∃ cl, r.conns c = some cl ∧
    ∀ ℓ', (r.loops ℓ').epoll.fd2http_ cl.http.fd_ = none ∧
      (r.loops ℓ').epoll.fd2chan_ cl.http.fd_ = none
  /-- the handlers of a channel that was handed out are those of a live object -/
  handler_live : ∀ ℓ, ∀ c ∈ (r.loops ℓ).point.ret, ∃ cl, r.conns c = some cl

theorem Sound.descriptorSafe {r : Reactor} (sound : r.Sound) : r.DescriptorSafe := by
  constructor
  case entry_open =>
    intro ℓ fd c entry
    obtain ⟨cl, alive, _, same⟩ := sound.http ℓ fd c entry
    exact ⟨cl, alive, same, same ▸ sound.opened c cl alive⟩
  case one_loop =>
    intro ℓ ℓ' fd listed listed'
    obtain ⟨c, entry⟩ := Option.ne_none_iff_exists'.mp listed
    obtain ⟨d, entry'⟩ := Option.ne_none_iff_exists'.mp listed'
    obtain ⟨cl, alive, loop, rfl⟩ := sound.http ℓ fd c entry
    obtain rfl : d = c := sound.own_entry alive entry'
    exact loop.symm.trans (sound.http_at alive entry').1.symm
  case channel_listed => exact sound.chan
  case add_free =>
    intro ℓ c next
    have waits : c ∈ (r.loops ℓ).point.waiting ++ (r.loops ℓ).pendingFunctors_ :=
      List.mem_append_left _ (List.mem_of_mem_head? next)
    obtain ⟨cl, alive, loop⟩ := sound.waits_live waits
    -- An entry of this descriptor would be one of `c` in its own loop, where `c` waits to enter.
    have free (ℓ') : (r.loops ℓ').epoll.fd2http_ cl.http.fd_ = none := by
      cases entry : (r.loops ℓ').epoll.fd2http_ cl.http.fd_ with
      | none => rfl
      | some d =>
        obtain rfl : d = c := sound.own_entry alive entry
        obtain ⟨rfl, _⟩ := sound.http_at alive entry
        subst loop
        exact absurd entry ((sound.fresh _).2 d waits _)
    refine ⟨cl, alive, fun ℓ' => ⟨free ℓ', ?_⟩⟩
    cases entry : (r.loops ℓ').epoll.fd2chan_ cl.http.fd_ with
    | none => rfl
    | some d => cases (free ℓ').symm.trans (sound.chan ℓ' _ d entry)
  case handler_live =>
    intro ℓ c member
    obtain ⟨fd, entry⟩ := (sound.ret ℓ).2 c member
    obtain ⟨cl, alive, _⟩ := sound.http ℓ fd c entry
    exact ⟨cl, alive⟩

/-- In every interleaving descriptors are reused safely, and an entry of a connection only
changes in a handler of that connection. -/
theorem descriptor_reuse_safety {w : ConnId → World} {r : Reactor}
    (reached : (machine w).Reachable r) :
    r.DescriptorSafe ∧ ∀ l r', step w r l = some r' → ∀ ℓ fd c,
      (r.loops ℓ).epoll.fd2http_ fd = some c →
        r.subject l = some c ∨ (r'.loops ℓ).epoll.fd2http_ fd = some c := by
  have sound := reachable_sound reached
  exact ⟨sound.descriptorSafe, fun l r' taken ℓ fd c => step_entries sound taken⟩

/-- A handler that meets nothing to read, at this second. -/
def quietAt (sec : Nat) : Arrival := ⟨[], [], ⟨sec, 0⟩, true⟩

/-- The way of a connection from `accept` to `newEvent`. -/
def entering (fd : Fd) (ℓ : LoopId) : List Label :=
  [.accept fd ℓ true, .accepted, .poll ℓ [] true, .startFunctors ℓ, .runFunctor ℓ (quietAt 0),
    .endFunctors ℓ]

/-- A connection that times out, and another one that is given its descriptor. -/
def reuse : List Label := entering 5 1 ++ [.expire 1 0 (quietAt 3)] ++ entering 5 2

theorem descriptor_reuse_safety_reuse : ∃ r,
    (machine fun _ => World.bare).exec new reuse = some r ∧
      (r.conns 0 = none ∧ (r.loops 2).epoll.fd2http_ 5 = some 1) ∧
      r.DescriptorSafe ∧ ∀ l r', step (fun _ => World.bare) r l = some r' → ∀ ℓ fd c,
        (r.loops ℓ).epoll.fd2http_ fd = some c →
          r.subject l = some c ∨ (r'.loops ℓ).epoll.fd2http_ fd = some c := by
  obtain ⟨r, run, reused⟩ := Machine.exec_any (M := machine fun _ => World.bare)
    (fun r => r.conns 0 = none ∧ (r.loops 2).epoll.fd2http_ 5 = some 1) new reuse
    (by decide +kernel)
  have allowed : (machine fun _ => World.bare).Along (fun _ _ _ => True) new reuse := by
    decide +kernel
  exact ⟨r, run, reused, descriptor_reuse_safety (Machine.reachable_exec (.init rfl) allowed run)⟩

end Reactor
end LightAgent

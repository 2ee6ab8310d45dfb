import LightAgent.HttpData.Effects
import Mathlib.Data.List.Nodup

/-!
# Timer nodes and the connections they are for

A superseded node cannot be taken out of the queue, it is neutralised by `clearReq`.
`Linked` says what that leaves: a queued node that still refers to a connection is the one
the connection links to, and the last one that was made for it.
-/
namespace LightAgent

open Function

/-- The queue of a loop against the `timer_` links of its connections. -/
structure Linked (tm : TimerManager) (link : ConnId → Option TimerId) : Prop where
  ids : (tm.timerNodeQueue.map (·.id)).Nodup
  made : ∀ node ∈ tm.timerNodeQueue, node.id < tm.nextId
  refers : ∀ node ∈ tm.timerNodeQueue, ∀ c, node.SPHttpData = some c →
    node.deleted_ = false ∧ link c = some node.id ∧
      tm.history.find? (·.1 = c) = some (c, node.id)
  recorded : ∀ c id, link c = some id → (c, id) ∈ tm.history
  owner : ∀ c c' id, (c, id) ∈ tm.history → (c', id) ∈ tm.history → c = c'
  past : ∀ entry ∈ tm.history, entry.2 < tm.nextId

/-- No queued node refers to the connection. -/
def TimerManager.Detached (tm : TimerManager) (c : ConnId) : Prop :=
  ∀ node ∈ tm.timerNodeQueue, node.SPHttpData ≠ some c

/-- Some timeout can still close the connection. -/
def TimerManager.Watches (tm : TimerManager) (c : ConnId) : Prop :=
  ∃ node ∈ tm.timerNodeQueue, node.deleted_ = false ∧ node.SPHttpData = some c

theorem linked_new : Linked ⟨[], 0, []⟩ fun _ => none :=
  ⟨List.nodup_nil, nofun, nofun, nofun, nofun, nofun⟩

namespace Linked

variable {tm : TimerManager} {link : ConnId → Option TimerId}

/-- At most one queued node refers to a connection. -/
theorem unique (linked : Linked tm link) {m n : TimerNode} {c : ConnId}
    (queued : m ∈ tm.timerNodeQueue) (queued' : n ∈ tm.timerNodeQueue)
    (refers : m.SPHttpData = some c) (refers' : n.SPHttpData = some c) : m = n := by
  have same : m.id = n.id := by
    have first := (linked.refers m queued c refers).2.1
    have second := (linked.refers n queued' c refers').2.1
    exact Option.some.inj (first.symm.trans second)
  exact List.inj_on_of_nodup_map linked.ids queued queued' same

/-- A link may go once no queued node refers to the connection. -/
theorem unlink (linked : Linked tm link) {c : ConnId} (detached : tm.Detached c) :
    Linked tm (update link c none) where
  ids := linked.ids
  made := linked.made
  refers node queued d refers := by
    -- A node that refers to `c` would contradict that it is detached.
    have other : d ≠ c := fun same => detached node queued (same ▸ refers)
    rw [update_of_ne other]
    exact linked.refers node queued d refers
  recorded d id links := by
    by_cases same : d = c
    · rw [same, update_self] at links
      cases links
    · rw [update_of_ne same] at links
      exact linked.recorded d id links
  owner := linked.owner
  past := linked.past

/-- `clearReq` on the node a connection links to neutralises no other one's. -/
theorem clearReq (linked : Linked tm link) {c : ConnId} {id : TimerId} (links : link c = some id) :
    Linked (tm.clearReq id) (update link c none) ∧ (tm.clearReq id).Detached c := by
  have kept (node) (queued : node ∈ (tm.clearReq id).timerNodeQueue) (d : ConnId)
      (refers : node.SPHttpData = some d) : node ∈ tm.timerNodeQueue ∧ node.id ≠ id := by
    obtain ⟨old, member, eq⟩ := List.mem_map.mp queued
    split at eq
    next => subst eq; cases refers
    next other => subst eq; exact ⟨member, other⟩
  have ids : (tm.clearReq id).timerNodeQueue.map (·.id) = tm.timerNodeQueue.map (·.id) := by
    unfold TimerManager.clearReq
    rw [List.map_map]
    apply List.map_congr_left
    intro node _
    dsimp only [Function.comp]
    split <;> rfl
  -- The only node that referred to `c` is the one that was cleared.
  have detached : (tm.clearReq id).Detached c := by
    intro node queued refers
    obtain ⟨member, other⟩ := kept node queued c refers
    have linked := (linked.refers node member c refers).2.1
    exact other (Option.some.inj (linked.symm.trans links))
  have cleared : Linked (tm.clearReq id) link := by
    refine ⟨ids ▸ linked.ids, ?_, ?_, linked.recorded, linked.owner, linked.past⟩
    · intro node queued
      have member : node.id ∈ tm.timerNodeQueue.map (·.id) := ids ▸ List.mem_map_of_mem queued
      obtain ⟨old, queued', same⟩ := List.mem_map.mp member
      exact same ▸ linked.made old queued'
    · intro node queued d refers
      exact linked.refers node (kept node queued d refers).1 d refers
  exact ⟨cleared.unlink detached, detached⟩

/-- A new node for a connection no other refers to. -/
theorem addTimer (linked : Linked tm link) {c : ConnId} (detached : tm.Detached c)
    (timeout : Nat) (now : Timeval) :
    Linked (tm.addTimer c timeout now) (update link c (some tm.nextId)) ∧
      (tm.addTimer c timeout now).Watches c := by
  have queue : (tm.addTimer c timeout now).timerNodeQueue =
    tm.timerNodeQueue ++ [⟨tm.nextId, false, now.msec + timeout, some c⟩] := rfl
  have history : (tm.addTimer c timeout now).history = (c, tm.nextId) :: tm.history := rfl
  -- Names are given once, so the new node has one of its own.
  have fresh : tm.nextId ∉ tm.timerNodeQueue.map (·.id) := by
    intro member
    obtain ⟨node, queued, same⟩ := List.mem_map.mp member
    exact absurd same (Nat.ne_of_lt (linked.made node queued))
  refine ⟨⟨?_, ?_, ?_, ?_, ?_, ?_⟩, ?_⟩
  · rw [queue, List.map_append, List.map_singleton]
    exact linked.ids.append (List.nodup_singleton _) (by simpa using fresh)
  · intro node queued
    change node.id < tm.nextId + 1
    rw [queue, List.mem_append, List.mem_singleton] at queued
    rcases queued with old | rfl
    · exact Nat.lt_succ_of_lt (linked.made node old)
    · exact Nat.lt_succ_self _
  -- An older node refers to another connection, whose last name is still its own.
  · intro node queued d refers
    rw [queue, List.mem_append, List.mem_singleton] at queued
    rcases queued with old | rfl
    · have other : d ≠ c := fun same => detached node old (same ▸ refers)
      obtain ⟨alive, links, latest⟩ := linked.refers node old d refers
      rw [update_of_ne other, history]
      exact ⟨alive, links, by simpa [List.find?_cons, Ne.symm other] using latest⟩
    · cases refers
      rw [update_self, history]
      exact ⟨rfl, rfl, by simp⟩
  · intro d id links
    rw [history, List.mem_cons]
    by_cases same : d = c
    · rw [same, update_self] at links
      cases links
      exact .inl (by rw [same])
    · rw [update_of_ne same] at links
      exact .inr (linked.recorded d id links)
  -- A name that is in the history already is smaller than the new one.
  · intro d d' id made made'
    rw [history, List.mem_cons] at made made'
    rcases made with new | old <;> rcases made' with new' | old'
    · exact (congrArg Prod.fst new).trans (congrArg Prod.fst new').symm
    · have same : id = tm.nextId := congrArg Prod.snd new
      exact absurd same (Nat.ne_of_lt (linked.past (d', id) old'))
    · have same : id = tm.nextId := congrArg Prod.snd new'
      exact absurd same (Nat.ne_of_lt (linked.past (d, id) old))
    · exact linked.owner d d' id old old'
  · intro entry made
    change entry.2 < tm.nextId + 1
    rw [history, List.mem_cons] at made
    rcases made with rfl | old
    · exact Nat.lt_succ_self _
    · exact Nat.lt_succ_of_lt (linked.past entry old)
  · exact ⟨⟨tm.nextId, false, now.msec + timeout, some c⟩, by rw [queue]; simp, rfl, rfl⟩

/-- Nodes that leave the queue. -/
theorem filter (linked : Linked tm link) (stays : TimerNode → Bool) :
    Linked { tm with timerNodeQueue := tm.timerNodeQueue.filter stays } link where
  ids := linked.ids.sublist (List.filter_sublist.map _)
  made node queued := linked.made node (List.mem_of_mem_filter queued)
  refers node queued := linked.refers node (List.mem_of_mem_filter queued)
  recorded := linked.recorded
  owner := linked.owner
  past := linked.past

/-- Popping a node. -/
theorem pop (linked : Linked tm link) (id : TimerId) :
    Linked { tm with timerNodeQueue := tm.timerNodeQueue.filter (·.id ≠ id) } link :=
  linked.filter _

end Linked

/-! ### The operations of a connection -/

/-- The queue against the links of the loop, among them that of the running connection. -/
def Conn.Timed (s : Conn) (link : ConnId → Option TimerId) : Prop :=
  Linked s.epoll.timerManager_ (update link s.http.this s.http.timer_)

namespace Conn.Timed

variable {s s' : Conn} {link : ConnId → Option TimerId}

theorem same (timed : s.Timed link) (same : SameTimer s s') (this : s'.http.this = s.http.this) :
    s'.Timed link := by
  unfold Conn.Timed at timed ⊢
  rw [same.timerManager_, same.timer_, this]
  exact timed

/-- After `seperateTimer` nothing refers to the connection. -/
theorem seperateTimer (timed : s.Timed link) : (seperateTimer s).Timed link ∧
    (LightAgent.seperateTimer s).epoll.timerManager_.Detached s.http.this := by
  unfold LightAgent.seperateTimer
  cases locked : s.timerLocks with
  | some id =>
    have links : s.http.timer_ = some id := (Option.filter_eq_some_iff.mp locked).1
    obtain ⟨cleared, detached⟩ := timed.clearReq (c := s.http.this) ((update_self _ _ _).trans links)
    rw [update_idem] at cleared
    exact ⟨cleared, detached⟩
  | none =>
    -- Where nothing is locked no node refers to the connection.
    refine ⟨timed, fun node queued refers => ?_⟩
    have links := (timed.refers node queued _ refers).2.1
    rw [update_self] at links
    have lock : s.timerLocks = some node.id :=
      Option.filter_eq_some_iff.mpr ⟨links, List.any_eq_true.mpr ⟨node, queued, by simp⟩⟩
    rw [locked] at lock
    cases lock

/-- `add_timer` for a connection nothing refers to. -/
theorem add_timer (timed : s.Timed link)
    (detached : s.epoll.timerManager_.Detached s.http.this)
    (held : s.http.channel_.holder_ = some s.http.this) (timeout : Nat) :
    (add_timer s timeout).Timed link ∧
      (LightAgent.add_timer s timeout).epoll.timerManager_.Watches s.http.this := by
  unfold LightAgent.add_timer
  rw [held]
  obtain ⟨added, watched⟩ := timed.addTimer detached timeout s.wire.now
  rw [update_idem] at added
  exact ⟨added, watched⟩

end Conn.Timed

/-! ### The handlers -/

section Handlers

variable {s : Conn} {link : ConnId → Option TimerId}

theorem add_timer_this (s : Conn) (timeout : Nat) :
    (add_timer s timeout).http.this = s.http.this := by
  obtain ⟨_, _, eq⟩ := add_timer_eq s timeout
  rw [eq]

theorem Modified.timed {s' : Conn} {timeout : Nat} (modified : Modified s timeout s')
    (timed : s.Timed link) (detached : s.epoll.timerManager_.Detached s.http.this)
    (held : s.http.channel_.holder_ = some s.http.this) :
    s'.Timed link ∧ s'.epoll.timerManager_.Watches s.http.this := by
  obtain ⟨started, watched⟩ := timed.add_timer detached held timeout
  refine ⟨started.same modified.timers ?_, modified.timers.timerManager_ ▸ watched⟩
  exact modified.effect.this.trans (add_timer_this s timeout).symm

/-- A connection that has no link when it enters the loop is given its first timeout. -/
theorem newEvent_timed (timed : s.Timed link) (fresh : s.http.timer_ = none)
    (held : s.http.channel_.holder_ = some s.http.this) :
    (newEvent s).Timed link ∧ (newEvent s).epoll.timerManager_.Watches s.http.this := by
  have detached : s.epoll.timerManager_.Detached s.http.this := by
    intro node queued refers
    have links := (timed.refers node queued _ refers).2.1
    rw [update_self, fresh] at links
    cases links
  have entered := newEvent_entered s
  obtain ⟨started, watched⟩ := timed.add_timer detached held DEFAULT_EXPIRED_TIME
  refine ⟨started.same entered.timers ?_, entered.timers.timerManager_ ▸ watched⟩
  exact (newEvent_effect s).this.trans (add_timer_this s _).symm

theorem decided_timed (w : World) (timed : s.Timed link) : (decided w s).Timed link ∧
    (decided w s).epoll.timerManager_.Detached s.http.this := by
  obtain ⟨separated, detached⟩ := timed.seperateTimer
  have timers := decided_timer w s
  refine ⟨separated.same timers ?_, timers.timerManager_ ▸ detached⟩
  exact (decided_frame w s).this.trans (seperateTimer_frame s).this.symm

theorem decided_held (w : World) (held : s.http.channel_.holder_ = some s.http.this) :
    (decided w s).http.channel_.holder_ = some (decided w s).http.this := by
  have frame := decided_frame w s
  obtain ⟨_, channel⟩ := frame.channel_
  rw [channel, frame.this]
  exact held

/-- Where `handleConn` keeps the connection it starts a timeout for it. -/
theorem rearmed_timed (w : World) (timed : s.Timed link)
    (held : s.http.channel_.holder_ = some s.http.this) {events : Events} {timeout : Nat} {s' : Conn}
    (modified : Modified ((decided w s).setEvents events) timeout s') :
    s'.Timed link ∧ s'.epoll.timerManager_.Watches s.http.this := by
  obtain ⟨settled, detached⟩ := decided_timed w timed
  rw [← (decided_frame w s).this] at detached ⊢
  have unchanged : ((decided w s).setEvents events).Timed link := settled.same ⟨rfl, rfl⟩ rfl
  exact modified.timed unchanged detached (decided_held w held)

theorem handleEvents_timed (w : World) (timed : s.Timed link)
    (held : s.http.channel_.holder_ = some s.http.this) : (handleEvents w s).Timed link := by
  have settled := (decided_timed w timed).1
  cases handleEvents_handled w s with
  | ignored _ eq =>
    rw [eq]
    exact timed.same ⟨rfl, rfl⟩ rfl
  | rearmed events timeout _ _ _ modified => exact (rearmed_timed w timed held modified).1
  | stranded _ _ eq =>
    rw [eq]
    exact settled.same ⟨rfl, rfl⟩ rfl
  | closed _ _ closed => exact settled.same closed.timers closed.effect.this

/-! ### The timeouts of other connections -/

/-- The node that watches another connection is not the one `seperateTimer` clears. -/
theorem seperateTimer_watches (timed : s.Timed link) {d : ConnId} (other : d ≠ s.http.this)
    (watched : s.epoll.timerManager_.Watches d) :
    (seperateTimer s).epoll.timerManager_.Watches d := by
  obtain ⟨node, queued, alive, refers⟩ := watched
  unfold seperateTimer
  cases locked : s.timerLocks with
  | none => exact ⟨node, queued, alive, refers⟩
  | some id =>
    have own : s.http.timer_ = some id := (Option.filter_eq_some_iff.mp locked).1
    have made := timed.recorded s.http.this id (by rw [update_self]; exact own)
    have made' := timed.recorded d node.id (timed.refers node queued d refers).2.1
    have differs : node.id ≠ id := fun same => other (timed.owner d _ id (same ▸ made') made)
    exact ⟨node, List.mem_map.mpr ⟨node, queued, if_neg differs⟩, alive, refers⟩

theorem add_timer_watches {d : ConnId} (watched : s.epoll.timerManager_.Watches d) (timeout : Nat) :
    (add_timer s timeout).epoll.timerManager_.Watches d := by
  obtain ⟨node, queued, alive, refers⟩ := watched
  unfold add_timer
  split
  · exact ⟨node, List.mem_append_left _ queued, alive, refers⟩
  · exact ⟨node, queued, alive, refers⟩

theorem handleEvents_watches (w : World) (timed : s.Timed link) {d : ConnId}
    (other : d ≠ s.http.this) (watched : s.epoll.timerManager_.Watches d) :
    (handleEvents w s).epoll.timerManager_.Watches d := by
  have settled : (decided w s).epoll.timerManager_.Watches d := by
    rw [(decided_timer w s).timerManager_]
    exact seperateTimer_watches timed other watched
  cases handleEvents_handled w s with
  | ignored _ eq => rw [eq]; exact watched
  | rearmed events timeout _ _ _ modified =>
    rw [modified.timers.timerManager_]
    exact add_timer_watches (s := (decided w s).setEvents events) settled timeout
  | stranded _ _ eq => rw [eq]; exact settled
  | closed _ _ closed => rw [closed.timers.timerManager_]; exact settled

theorem newEvent_watches {d : ConnId} (watched : s.epoll.timerManager_.Watches d) :
    (newEvent s).epoll.timerManager_.Watches d := by
  rw [(newEvent_entered s).timers.timerManager_]
  exact add_timer_watches watched DEFAULT_EXPIRED_TIME

end Handlers

end LightAgent

import LightAgent.Reactor.Descriptors

/-!
# When timers expire

A deadline and the time it is held against are both milliseconds modulo 10 000 seconds. The sweep
of the queue stops at the first node that is not over, which has the least deadline of all.
-/
namespace LightAgent

/-- `TimerNode::TimerNode` -/
def TimerNode.new (id : TimerId) (requestData : ConnId) (timeout : Nat) (now : Timeval) :
    TimerNode :=
  ⟨id, false, now.msec + timeout, some requestData⟩

/-- `TimerNode::setDeleted` -/
def TimerNode.setDeleted (node : TimerNode) : TimerNode := { node with deleted_ := true }

/-- `TimerNode::isValid`, and what it makes of the node. -/
def TimerNode.isValid (node : TimerNode) (now : Timeval) : Bool × TimerNode :=
  if now.msec < node.expiredTime_ then (true, node) else (false, node.setDeleted)

theorem isValid_eq_false_iff {node : TimerNode} {now : Timeval} :
    (node.isValid now).1 = false ↔ node.expiredTime_ ≤ now.msec := by
  unfold TimerNode.isValid
  split
  next early => simpa using early
  next late => simpa using late

/-! ### Exactness -/

/-- Milliseconds since the epoch, at the resolution of the clock. -/
def Timeval.millis (now : Timeval) : Nat := now.tv_sec * 1000 + now.tv_usec / 1000

/-- The seconds are cut off at 10 000, and with them the milliseconds. -/
theorem msec_eq {now : Timeval} (normal : now.tv_usec < 1000000) :
    now.msec = now.millis % 10000000 := by
  unfold Timeval.msec Timeval.millis
  omega

/-- No node is over before its time. -/
theorem elapsed_of_expired {t now : Timeval} (normal : t.tv_usec < 1000000)
    (normal' : now.tv_usec < 1000000) (later : t.millis ≤ now.millis) {timeout : Nat}
    (due : t.msec + timeout ≤ now.msec) : t.millis + timeout ≤ now.millis := by
  rw [msec_eq normal, msec_eq normal'] at due
  omega

/-- A node is found to be over exactly when its time has passed, unless the clock has come to a
new period of 10 000 seconds and not yet as far in it as the deadline was. -/
theorem timeout_exact_iff {t now : Timeval} (id : TimerId) (http : ConnId) (timeout : Nat)
    (normal : t.tv_usec < 1000000) (normal' : now.tv_usec < 1000000)
    (later : t.millis ≤ now.millis) :
    (((TimerNode.new id http timeout t).isValid now).1 = false ↔
      t.millis + timeout ≤ now.millis) ↔
    now.millis < t.millis + timeout ∨
      t.millis % 10000000 + timeout ≤ now.millis % 10000000 := by
  have found : ((TimerNode.new id http timeout t).isValid now).1 = false ↔
      t.millis % 10000000 + timeout ≤ now.millis % 10000000 := by
    rw [isValid_eq_false_iff, ← msec_eq normal, ← msec_eq normal']
    rfl
  have elapsed : t.millis % 10000000 + timeout ≤ now.millis % 10000000 →
      t.millis + timeout ≤ now.millis := by
    rw [← msec_eq normal, ← msec_eq normal']
    exact elapsed_of_expired normal normal' later
  rw [found]
  constructor
  · intro exact
    by_cases early : now.millis < t.millis + timeout
    · exact .inl early
    · exact .inr (exact.mpr (Nat.not_lt.mp early))
  · rintro (early | due)
    · exact ⟨elapsed, fun late => absurd early (Nat.not_lt.mpr late)⟩
    · exact ⟨elapsed, fun _ => due⟩

theorem timeout_exact_iff_same_period :
    ((TimerNode.new 0 0 2000 ⟨5, 0⟩).isValid ⟨7, 500⟩).1 = false ↔ 5000 + 2000 ≤ 7000 :=
  (@timeout_exact_iff ⟨5, 0⟩ ⟨7, 500⟩ 0 0 2000 (by decide) (by decide) (by decide)).mpr
    (.inr (by decide))

/-- A deadline beyond the period is never met. -/
theorem wrapped_never_expires {t : Timeval} {timeout : Nat} (beyond : 10000000 ≤ t.msec + timeout)
    (id : TimerId) (http : ConnId) {now : Timeval} (normal : now.tv_usec < 1000000) :
    ((TimerNode.new id http timeout t).isValid now).1 = true := by
  have below : now.msec < 10000000 := by
    rw [msec_eq normal]
    exact Nat.mod_lt _ (by decide)
  exact congrArg Prod.fst (if_pos (Nat.lt_of_lt_of_le below beyond))

/-- A timeout of two seconds that is set at the end of the period and has passed. -/
theorem wrapped_timeout_is_valid :
    ¬(((TimerNode.new 0 0 2000 ⟨9999, 0⟩).isValid ⟨10001, 0⟩).1 = false ↔
      (Timeval.mk 9999 0).millis + 2000 ≤ (Timeval.mk 10001 0).millis) := by
  decide

/-! ### The sweep -/

/-- `std::priority_queue` under `TimerCmp`: the top is a node with a least deadline. -/
structure TimerQueue where
  top : (queue : List TimerNode) → queue ≠ [] → TimerNode
  isTop : ∀ queue some, Reactor.isTop queue (top queue some)

theorem TimerQueue.erase_top_length (pq : TimerQueue) {queue : List TimerNode}
    (some : queue ≠ []) : (queue.erase (pq.top queue some)).length < queue.length := by
  have length := List.length_erase_of_mem (pq.isTop queue some).1
  have positive := List.length_pos_of_ne_nil some
  omega

/-- What a call of `handleExpiredEvent` has done: the nodes that are left, those it popped, each
with the reading of the clock that found it over, the connections it closed, and the readings
taken. -/
structure Sweep where
  queue : List TimerNode
  popped : List (TimerNode × Option Nat)
  closed : List ConnId
  taken : Nat
  deriving DecidableEq

/-- `pop()`, and `~TimerNode` when `ptimer_now` goes out of scope. -/
def Sweep.pop (sweep : Sweep) (node : TimerNode) (reading : Option Nat) : Sweep :=
  { sweep with
    popped := (node, reading) :: sweep.popped
    closed := match node.SPHttpData with
      | some http => http :: sweep.closed
      | none => sweep.closed }

/-- `TimerManager::handleExpiredEvent`, where `clock` gives the readings of `gettimeofday`, the
first `taken` of which are used up. A node that `isValid` marks as deleted is popped at once. -/
def TimerQueue.handleExpiredEvent (pq : TimerQueue) (clock : Nat → Timeval)
    (queue : List TimerNode) (taken : Nat) : Sweep :=
  if some : queue = [] then ⟨[], [], [], taken⟩
  else
    let ptimer_now := pq.top queue some
    if ptimer_now.deleted_ then
      (pq.handleExpiredEvent clock (queue.erase ptimer_now) taken).pop ptimer_now none
    else if (ptimer_now.isValid (clock taken)).1 = false then
      (pq.handleExpiredEvent clock (queue.erase ptimer_now) (taken + 1)).pop ptimer_now
        (Option.some taken)
    else ⟨queue, [], [], taken + 1⟩
termination_by queue.length
decreasing_by all_goals exact pq.erase_top_length some

/-- A popped node was deleted, or over at the reading that was taken for it. -/
def Justified (clock : Nat → Timeval) (first last : Nat) (pop : TimerNode × Option Nat) : Prop :=
  match pop.2 with
  | none => pop.1.deleted_ = true
  | some reading => first ≤ reading ∧ reading < last ∧ pop.1.expiredTime_ ≤ (clock reading).msec

/-- The specification of a sweep from `queue`, with the readings from `taken` on. -/
structure Swept (clock : Nat → Timeval) (queue : List TimerNode) (taken : Nat) (sweep : Sweep) :
    Prop where
  forward : taken ≤ sweep.taken
  nodes : (sweep.popped.map (·.1) ++ sweep.queue).Perm queue
  justified : ∀ pop ∈ sweep.popped, Justified clock taken sweep.taken pop
  closed : sweep.closed = sweep.popped.filterMap (·.1.SPHttpData)
  left : sweep.queue ≠ [] → taken < sweep.taken ∧
    ∀ node ∈ sweep.queue, (clock (sweep.taken - 1)).msec < node.expiredTime_

variable {clock : Nat → Timeval} {queue : List TimerNode} {taken : Nat}

theorem Justified.widen {first first' last : Nat} {pop : TimerNode × Option Nat}
    (justified : Justified clock first last pop) (low : first' ≤ first) :
    Justified clock first' last pop := by
  obtain ⟨node, reading⟩ := pop
  cases reading with
  | none => exact justified
  | some reading => exact ⟨Nat.le_trans low justified.1, justified.2⟩

/-- A turn that pops a node, in front of the rest of the sweep. -/
theorem Swept.pop {later : Nat} {sweep : Sweep} {node : TimerNode} {reading : Option Nat}
    (swept : Swept clock (queue.erase node) later sweep) (member : node ∈ queue)
    (step : taken ≤ later) (justified : Justified clock taken sweep.taken (node, reading)) :
    Swept clock queue taken (sweep.pop node reading) where
  forward := Nat.le_trans step swept.forward
  nodes := (swept.nodes.cons node).trans (List.perm_cons_erase member).symm
  justified := by
    intro pop inside
    rcases List.mem_cons.mp inside with rfl | inside
    · exact justified
    · exact (swept.justified pop inside).widen step
  closed := by
    unfold Sweep.pop
    dsimp only
    rw [List.filterMap_cons, swept.closed]
    cases node.SPHttpData <;> rfl
  left := by
    intro some
    obtain ⟨advanced, live⟩ := swept.left some
    exact ⟨Nat.lt_of_le_of_lt step advanced, live⟩

/-- Whatever the queue holds, the sweep ends. It pops only nodes that are deleted or over, closes
the connections that these still hold and no other, and the nodes it leaves, deleted or not, are
not over at the last reading. -/
theorem expiry_sweep (pq : TimerQueue) (clock : Nat → Timeval) (queue : List TimerNode)
    (taken : Nat) : Swept clock queue taken (pq.handleExpiredEvent clock queue taken) := by
  fun_induction TimerQueue.handleExpiredEvent pq clock queue taken with
  | case1 taken => exact ⟨Nat.le_refl _, .refl _, nofun, rfl, fun some => absurd rfl some⟩
  | case2 queue taken some node deleted ih =>
    exact ih.pop (pq.isTop queue some).1 (Nat.le_refl _) deleted
  | case3 queue taken some node _ due ih =>
    refine ih.pop (pq.isTop queue some).1 (Nat.le_succ _) ⟨Nat.le_refl _, ?_, ?_⟩
    · exact ih.forward
    · exact isValid_eq_false_iff.mp due
  | case4 queue taken some node _ live =>
    refine ⟨Nat.le_succ _, .refl _, nofun, rfl, fun _ => ⟨Nat.lt_succ_self _, fun other member => ?_⟩⟩
    -- The top is not over, and no deadline is less than that of the top.
    have early : (clock taken).msec < node.expiredTime_ :=
      Nat.not_le.mp fun late => live (isValid_eq_false_iff.mpr late)
    exact Nat.lt_of_lt_of_le early ((pq.isTop queue some).2 other member)

/-- The first of the nodes with a least deadline. -/
def leastNode : (queue : List TimerNode) → queue ≠ [] → TimerNode
  | [node], _ => node
  | node :: other :: rest, _ =>
    let least := leastNode (other :: rest) (List.cons_ne_nil _ _)
    if node.expiredTime_ ≤ least.expiredTime_ then node else least

theorem leastNode_isTop (queue : List TimerNode) (some : queue ≠ []) :
    Reactor.isTop queue (leastNode queue some) := by
  fun_induction leastNode queue some with
  | case1 node => exact ⟨List.mem_singleton_self _, by simp⟩
  | case2 node other rest _ least less ih =>
    refine ⟨List.mem_cons_self, fun next member => ?_⟩
    rcases List.mem_cons.mp member with rfl | member
    · exact Nat.le_refl _
    · exact Nat.le_trans less (ih.2 next member)
  | case3 node other rest _ least more ih =>
    refine ⟨List.mem_cons_of_mem _ ih.1, fun next member => ?_⟩
    rcases List.mem_cons.mp member with rfl | member
    · exact Nat.le_of_lt (Nat.not_le.mp more)
    · exact ih.2 next member

/-- A queue that is searched for its top. -/
def TimerQueue.searched : TimerQueue := ⟨leastNode, leastNode_isTop⟩

theorem expiry_sweep_three : Swept (fun _ => ⟨0, 6000⟩)
    [⟨0, true, 5, none⟩, ⟨1, false, 4, some 7⟩, ⟨2, false, 9, some 8⟩] 0
    (TimerQueue.searched.handleExpiredEvent (fun _ => ⟨0, 6000⟩)
      [⟨0, true, 5, none⟩, ⟨1, false, 4, some 7⟩, ⟨2, false, 9, some 8⟩] 0) :=
  expiry_sweep .searched _ _ 0

/-! ### The sweep as a run of the reactor -/

namespace Reactor

open Library

variable {r r' : Reactor} {ℓ : LoopId}

theorem find_of_ids {queue : List TimerNode} (ids : (queue.map (·.id)).Nodup) {node : TimerNode}
    (queued : node ∈ queue) : queue.find? (·.id = node.id) = some node := by
  cases found : queue.find? (·.id = node.id) with
  | none =>
    have other := List.find?_eq_none.mp found node queued
    exact absurd (decide_eq_true rfl) other
  | some first =>
    have name : first.id = node.id := by simpa using List.find?_some found
    rw [List.inj_on_of_nodup_map ids (List.mem_of_find?_eq_some found) queued name]

/-- Under distinct names the node that is popped is the one of its name. -/
theorem erase_of_ids {queue : List TimerNode} (ids : (queue.map (·.id)).Nodup) {node : TimerNode}
    (queued : node ∈ queue) : queue.filter (·.id ≠ node.id) = queue.erase node := by
  rw [(List.Nodup.of_map _ ids).erase_eq_filter]
  refine List.filter_congr fun other queued' => ?_
  have same : other.id = node.id ↔ other = node :=
    ⟨List.inj_on_of_nodup_map ids queued' queued, fun same => same ▸ rfl⟩
  rw [bne, Bool.eq_iff_iff]
  simp [same]

theorem handleClose_timers (s : Conn) :
    (handleClose s).epoll.timerManager_ = s.epoll.timerManager_ := by
  unfold handleClose epoll_del
  dsimp only
  split <;> rfl

/-- What a pop closes changes nothing further of the timers, and the loop goes on. -/
theorem popNode_loop {node : TimerNode} {a : Arrival} (popped : r.popNode ℓ node a = some r')
    (ℓ' : LoopId) :
    (r'.loops ℓ').epoll.timerManager_ = ((r.pop ℓ node.id).loops ℓ').epoll.timerManager_ ∧
      (r'.loops ℓ').point = (r.loops ℓ').point := by
  unfold popNode at popped
  split at popped
  next =>
    cases popped
    exact ⟨rfl, pop_point r ℓ node.id ℓ'⟩
  next c _ =>
    obtain ⟨r₁, called, rfl⟩ := Option.map_eq_some_iff.mp popped
    obtain ⟨cl, alive, rfl⟩ := Option.map_eq_some_iff.mp called
    let s := handleClose (cl.conn a ((r.pop ℓ node.id).loops cl.http.loop_).epoll)
    have loop : s.http.loop_ = cl.http.loop_ := by
      change (handleClose _).http.loop_ = _
      rw [handleClose_http]
      rfl
    obtain ⟨_, _, timers, _, point⟩ := release_loop ((r.pop ℓ node.id).store c s) c ℓ'
    rw [timers, point]
    constructor
    · by_cases same : ℓ' = s.http.loop_
      · subst same
        rw [store_epoll, loop]
        exact handleClose_timers _
      · rw [store_of_ne _ c same]
    · exact (setEpoll_point _ _ _ ℓ').trans (pop_point r ℓ node.id ℓ')

/-- A turn that pops is a step of the reactor. -/
theorem step_pop (w : ConnId → World) (sound : r.Sound) (point : (r.loops ℓ).point = .expiring)
    (ids : ((r.loops ℓ).epoll.timerManager_.timerNodeQueue.map (·.id)).Nodup) {node : TimerNode}
    (top : isTop (r.loops ℓ).epoll.timerManager_.timerNodeQueue node) {a : Arrival}
    (due : node.deleted_ = true ∨ node.expiredTime_ ≤ a.now.msec) :
    ∃ r', step w r (.expire ℓ node.id a) = some r' ∧ r'.Sound ∧ (r'.loops ℓ).point = .expiring ∧
      (r'.loops ℓ).epoll.timerManager_.timerNodeQueue =
        (r.loops ℓ).epoll.timerManager_.timerNodeQueue.erase node := by
  have taken : step w r (.expire ℓ node.id a) = r.popNode ℓ node a := by
    simp only [step, point, find_of_ids ids top.1, if_true]
    exact if_pos ⟨top, due⟩
  have lives : ∃ r', r.popNode ℓ node a = some r' := by
    unfold popNode
    cases refers : node.SPHttpData with
    | none => exact ⟨_, rfl⟩
    | some c =>
      obtain ⟨cl, alive, _⟩ := sound.timers ℓ node top.1 c refers
      have alive' : (r.pop ℓ node.id).conns c = some cl := alive
      exact Option.isSome_iff_exists.mp (by simp [call, alive'])
  obtain ⟨r', popped⟩ := lives
  obtain ⟨timers, still⟩ := popNode_loop popped ℓ
  refine ⟨r', taken.trans popped, sound.step _ _ _ (taken.trans popped), still.trans point, ?_⟩
  rw [timers, ← erase_of_ids ids top.1]
  unfold pop
  rw [setEpoll_epoll]

/-- The steps of a sweep, each at the reading that was taken for it. -/
def sweepLabels (ℓ : LoopId) (arrival : Nat → Arrival) (sweep : Sweep) : List Label :=
  sweep.popped.map (fun pop => .expire ℓ pop.1.id (arrival (pop.2.getD 0))) ++
    [.endExpire ℓ (arrival (sweep.taken - 1)).now]

/-- A sweep of the queue of a loop is a run of the reactor, and leaves what the run leaves. -/
theorem sweep_is_run (w : ConnId → World) (pq : TimerQueue) (arrival : Nat → Arrival)
    (queue : List TimerNode) (taken : Nat) (sound : r.Sound)
    (point : (r.loops ℓ).point = .expiring)
    (same : (r.loops ℓ).epoll.timerManager_.timerNodeQueue = queue)
    (ids : (queue.map (·.id)).Nodup) :
    ∃ r', (machine w).exec r (sweepLabels ℓ arrival
        (pq.handleExpiredEvent (fun k => (arrival k).now) queue taken)) = some r' ∧
      (r'.loops ℓ).epoll.timerManager_.timerNodeQueue =
        (pq.handleExpiredEvent (fun k => (arrival k).now) queue taken).queue := by
  -- Under the recursion of the sweep: the first step is the turn at the top of the queue.
  fun_induction TimerQueue.handleExpiredEvent pq (fun k => (arrival k).now) queue taken
    generalizing r with
  | case1 taken =>
    have ends : step w r (.endExpire ℓ (arrival (taken - 1)).now) =
        some (r.setPoint ℓ .polling) := by
      simp only [step]
      exact if_pos ⟨point, .inl same⟩
    refine ⟨r.setPoint ℓ .polling, Machine.exec_cons ends [], ?_⟩
    rw [setPoint_epoll]
    exact same
  | case2 queue taken some node deleted =>
    rename_i ih
    subst same
    obtain ⟨r₁, pops, sound₁, point₁, same₁⟩ :=
      step_pop w sound point ids (pq.isTop _ some) (a := arrival 0) (.inl deleted)
    obtain ⟨r', run, left⟩ := ih sound₁ point₁ same₁ (ids.sublist (List.erase_sublist.map _))
    exact ⟨r', (Machine.exec_cons pops _).trans run, left⟩
  | case3 queue taken some node _ due =>
    rename_i ih
    subst same
    obtain ⟨r₁, pops, sound₁, point₁, same₁⟩ := step_pop w sound point ids (pq.isTop _ some)
      (a := arrival taken) (.inr (isValid_eq_false_iff.mp due))
    obtain ⟨r', run, left⟩ := ih sound₁ point₁ same₁ (ids.sublist (List.erase_sublist.map _))
    exact ⟨r', (Machine.exec_cons pops _).trans run, left⟩
  | case4 queue taken some node alive =>
    rename_i live
    subst same
    have early : (arrival taken).now.msec < node.expiredTime_ :=
      Nat.not_le.mp fun late => live (isValid_eq_false_iff.mpr late)
    have ends : step w r (.endExpire ℓ (arrival taken).now) =
        Option.some (r.setPoint ℓ .polling) := by
      simp only [step]
      refine if_pos ⟨point, .inr ⟨node, (pq.isTop _ some).1, pq.isTop _ some, ?_, early⟩⟩
      simpa using alive
    refine ⟨r.setPoint ℓ .polling, Machine.exec_cons ends [], ?_⟩
    rw [setPoint_epoll]

end Reactor

end LightAgent

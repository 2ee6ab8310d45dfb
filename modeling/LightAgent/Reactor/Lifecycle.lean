import LightAgent.Reactor.Handover
import LightAgent.Reactor.Reaping

/-!
# The life of a connection

What has happened to a connection decides what can happen to it next, whatever the other
connections, the loops and the accepting thread do: it enters its loop first and once, a handler is
called directly behind a report and only while the channel is in the table, and only a timeout that
is over closes it.
-/
namespace LightAgent

open Library Function

/-- What its encounters make of a connection. -/
def Conn.after (w : World) (es : List Encounter) : Conn := es.foldl (Conn.encounter w) .alone

@[simp] theorem Conn.after_concat (w : World) (es : List Encounter) (e : Encounter) :
    Conn.after w (es ++ [e]) = (Conn.after w es).encounter w e := by
  simp [Conn.after]

/-- What has happened before allows it. -/
def Encounter.Follows (w : World) (es : List Encounter) : Encounter → Prop
  | .enters _ => es = []
  | .reported ready => ∃ reg ∈ (Conn.after w es).registration, reg.enabled ∧ ready.Within reg.mask
  | .handled _ => (∃ before ready, es = before ++ [.reported ready]) ∧ (Conn.after w es).heard
  | .expires a => ∃ deadline ∈ (Conn.after w es).deadlines, deadline ≤ a.now.msec

/-- A descriptor that is reported belongs to a connection that has entered its loop. -/
theorem Encounter.Follows.began {w : World} {es : List Encounter} {ready : Ready}
    (follows : (Encounter.reported ready).Follows w es) : es ≠ [] := by
  rintro rfl
  obtain ⟨reg, registered, _⟩ := follows
  cases registered

/-- Each encounter is one that the ones before it allow. -/
inductive Lifecycle (w : World) : List Encounter → Prop
  | nil : Lifecycle w []
  | concat {es : List Encounter} {e : Encounter} :
      Lifecycle w es → e.Follows w es → Lifecycle w (es ++ [e])

/-! ### What follows from the order -/

namespace Lifecycle

variable {w : World} {es front back : List Encounter} {e : Encounter}

theorem follows (life : Lifecycle w es) (split : es = front ++ e :: back) : e.Follows w front := by
  induction life generalizing back with
  | nil => simp at split
  | @concat es d life follows ih =>
    induction back using List.reverseRecOn with
    | nil =>
      obtain ⟨rfl, same⟩ := List.append_inj' split rfl
      cases same
      exact follows
    | append_singleton back d' _ =>
      rw [← List.cons_append, ← List.append_assoc] at split
      exact ih (List.append_inj' split rfl).1

theorem prior (life : Lifecycle w (es ++ back)) : Lifecycle w es := by
  induction back using List.reverseRecOn with
  | nil => rwa [List.append_nil] at life
  | append_singleton back d ih =>
    rw [← List.append_assoc] at life
    generalize whole : es ++ back ++ [d] = all at life
    cases life with
    | nil => simp at whole
    | concat life _ =>
      obtain ⟨rfl, _⟩ := List.append_inj' whole rfl
      exact ih life

/-- Before it enters its loop nothing happens to it. -/
theorem enters_first (life : Lifecycle w (e :: es)) : ∃ a, e = .enters a := by
  have follows : e.Follows w [] := life.follows rfl
  cases e with
  | enters a => exact ⟨a, rfl⟩
  | reported ready => exact absurd rfl follows.began
  | handled a =>
    obtain ⟨⟨before, ready, empty⟩, _⟩ := follows
    simp at empty
  | expires a =>
    obtain ⟨deadline, member, _⟩ := follows
    cases member

end Lifecycle

/-- No handler is called any more. -/
structure Conn.Gone (s : Conn) : Prop where
  heard : ¬s.heard
  deadlines : s.deadlines = []

theorem Conn.Gone.reported {s : Conn} (gone : s.Gone) (ready : Ready) : (s.reported ready).Gone := by
  obtain ⟨channel, interest, same⟩ := s.reported_frame ready
  rw [same]
  exact ⟨gone.heard, gone.deadlines⟩

namespace Lifecycle

variable {w : World} {es front back : List Encounter} {e : Encounter}

/-- From then on its descriptor is reported at most. -/
theorem gone (life : Lifecycle w (front ++ back)) (began : front ≠ [])
    (gone : (Conn.after w front).Gone) : ∀ e ∈ back, ∃ ready, e = .reported ready := by
  suffices h : (Conn.after w (front ++ back)).Gone ∧ ∀ e ∈ back, ∃ ready, e = .reported ready from h.2
  induction back using List.reverseRecOn with
  | nil => exact ⟨by rwa [List.append_nil], by simp⟩
  | append_singleton back e ih =>
    rw [← List.append_assoc] at life ⊢
    obtain ⟨still, reports⟩ := ih life.prior
    have follows : e.Follows w (front ++ back) := life.follows rfl
    have reported : ∃ ready, e = .reported ready := by
      cases e with
      | reported ready => exact ⟨ready, rfl⟩
      | enters a => exact absurd (List.append_eq_nil_iff.mp follows).1 began
      | handled a => exact absurd follows.2 still.heard
      | expires a =>
        obtain ⟨deadline, member, _⟩ := follows
        rw [still.deadlines] at member
        cases member
    obtain ⟨ready, rfl⟩ := reported
    rw [Conn.after_concat]
    refine ⟨still.reported ready, fun d member => ?_⟩
    rcases List.mem_append.mp member with earlier | last
    · exact reports d earlier
    · exact ⟨ready, List.mem_singleton.mp last⟩

end Lifecycle

theorem Conn.expires_gone (w : World) (s : Conn) (a : Arrival) :
    (s.encounter w (.expires a)).Gone := by
  have closed := handleClose_closed (s.expired.given a)
  have encounter : s.encounter w (.expires a) = handleClose (s.expired.given a) := rfl
  rw [encounter]
  constructor
  · exact closed.unheard
  · unfold Conn.deadlines
    rw [closed.timers.timerManager_, closed.effect.this]
    -- The nodes of the connection are gone before `handleClose` is called.
    refine TimerManager.Detached.deadlines fun node queued refers => ?_
    exact of_decide_eq_true (List.mem_filter.mp queued).2 refers

namespace Reactor

variable {r r' : Reactor} {c : ConnId} {cl : Client} {w : ConnId → World} {l : Label}

/-! ### Where a connection waits -/

/-- What a loop has still to handle it had before, or `epoll_wait` has just returned it. -/
theorem step_ret (taken : step w r l = some r') {ℓ : LoopId}
    (member : c ∈ (r'.loops ℓ).point.ret) : c ∈ (r.loops ℓ).point.ret ∨ ∃ events woken e,
      l = .poll ℓ events woken ∧ e ∈ events ∧ (r.loops ℓ).epoll.fd2chan_ e.1 = some c := by
  -- A loop that goes on to a point where no more is left to handle.
  have goesOn (ℓ' : LoopId) (point : LoopPoint) (kept : point.ret ⊆ (r.loops ℓ').point.ret)
      (same : (r'.loops ℓ).point = ((r.setPoint ℓ' point).loops ℓ).point) :
      c ∈ (r.loops ℓ).point.ret := by
    rw [same] at member
    by_cases here : ℓ = ℓ'
    · subst here
      rw [setPoint_point] at member
      exact kept member
    · rwa [setPoint_of_ne r ℓ' here] at member
  cases step_steps taken with
  | accept fd ℓ' nonBlocking _ _ =>
    rw [acceptConn_point] at member
    exact .inl member
  | accepted d _ =>
    rw [(release_loop { r with req_info := none } d ℓ).point] at member
    exact .inl member
  | poll ℓ' events woken point _ =>
    unfold pollEvents at member
    dsimp only at member
    by_cases here : ℓ = ℓ'
    · subst here
      rw [setPoint_point] at member
      split at member
      · cases member
      · obtain ⟨e, inside, entry⟩ := List.mem_filterMap.mp member
        exact .inr ⟨events, woken, e, rfl, inside, entry⟩
    · rw [setPoint_of_ne _ ℓ' here, (reports_loop r ℓ' events ℓ).point] at member
      exact .inl member
  | handle ℓ' a d ret r₁ point called =>
    refine .inl (goesOn ℓ' _ ?_ ((release_loop r₁ d ℓ).point.trans (call_queue called ℓ).1))
    rw [point]
    exact List.subset_cons_self d ret
  | startFunctors ℓ' _ =>
    refine .inl (goesOn ℓ' (.functors [] (r.loops ℓ').pendingFunctors_) (by simp [LoopPoint.ret]) ?_)
    unfold swapFunctors setPoint
    by_cases here : ℓ = ℓ'
    · subst here
      simp
    · simp [here]
  | runFunctor ℓ' a done d rest _ _ called =>
    exact .inl (goesOn ℓ' _ (by simp [LoopPoint.ret]) (call_queue called ℓ).1)
  | endFunctors ℓ' done _ =>
    exact .inl (goesOn ℓ' _ (by simp [LoopPoint.ret]) (releases_loop _ done ℓ).point)
  | drop ℓ' a node _ _ _ =>
    rw [pop_point] at member
    exact .inl member
  | close ℓ' a node d r₁ _ _ _ called =>
    rw [(release_loop r₁ d ℓ).point, (call_queue called ℓ).1, pop_point] at member
    exact .inl member
  | endExpire ℓ' now _ => exact .inl (goesOn ℓ' _ (by simp [LoopPoint.ret]) rfl)

/-- Only `handNewConn` hands a connection over, and it is the one it has made. -/
theorem handed_made {ℓ : LoopId} (handed : .handed c ∈ r.handoffs ℓ l) : c = r.nextConn := by
  cases l with
  | accept fd ℓ' nonBlocking =>
    simp only [handoffs] at handed
    split at handed
    · simpa using handed
    · simp at handed
  | runFunctor ℓ' a =>
    simp only [handoffs] at handed
    split at handed
    · simp at handed
    · simp at handed
  | _ => simp [handoffs] at handed

/-- What waits to enter a loop waited before, or has just been handed over. -/
theorem step_waits (sound : r.Sound) (taken : step w r l = some r') {ℓ : LoopId}
    (waits : c ∈ (r'.loops ℓ).point.waiting ++ (r'.loops ℓ).pendingFunctors_) :
    c ∈ (r.loops ℓ).point.waiting ++ (r.loops ℓ).pendingFunctors_ ∨ c = r.nextConn := by
  have moves := step_moves sound taken ℓ
  have made (d : ConnId) : .handed d ∈ r.handoffs ℓ l → d = r.nextConn := handed_made
  generalize r.handoffs ℓ l = hs at moves made
  generalize (r.loops ℓ).point = p, (r.loops ℓ).pendingFunctors_ = q,
    (r'.loops ℓ).point = p', (r'.loops ℓ).pendingFunctors_ = q', r.wakes ℓ = x,
    r'.wakes ℓ = x' at moves waits ⊢
  cases moves with
  | handed point pending d =>
    rw [← List.append_assoc] at waits
    rcases List.mem_append.mp waits with before | last
    · exact .inl before
    · exact .inr ((List.mem_singleton.mp last).trans (made d List.mem_cons_self))
  | swapped pending _ => exact .inl (by simpa [LoopPoint.waiting] using waits)
  | entered pending done d rest _ => exact .inl (List.mem_cons_of_mem d waits)
  | _ => exact .inl waits

/-- A connection whose handler has been called waits no more. -/
theorem own_placed (sound : r.Sound) (timed : r.Timed) (taken : step w r l = some r')
    (own : r.subject l = some c) (ℓ : LoopId) : c ∉ (r'.loops ℓ).point.ret ∧
      c ∉ (r'.loops ℓ).point.waiting ++ (r'.loops ℓ).pendingFunctors_ := by
  cases step_steps taken with
  | handle ℓ' a d ret r₁ point called =>
    obtain rfl : d = c := by simpa [subject, point, LoopPoint.ret] using own
    obtain ⟨_, _, _, _, _, idle, settled, _⟩ := sound.handle_inv point called
    have frame := release_loop r₁ d ℓ
    obtain ⟨stands, pending⟩ := call_queue called ℓ
    rw [frame.point, frame.pendingFunctors_, stands, pending]
    exact ⟨idle ℓ, settled ℓ⟩
  | runFunctor ℓ' a done d rest _ point called =>
    obtain rfl : d = c := by simpa [subject, point, LoopPoint.waiting] using own
    obtain ⟨_, _, _, _, idle, settled, _⟩ := sound.functor_inv point called
    obtain ⟨stands, pending⟩ := call_queue called ℓ
    rw [stands, pending]
    exact ⟨idle ℓ, settled ℓ⟩
  | drop ℓ' a node _ found idle => simp [subject, found, idle] at own
  | close ℓ' a node d r₁ point found refers called =>
    obtain rfl : d = c := by simpa [subject, found, refers] using own
    obtain ⟨cl, alive, rfl, idle, _⟩ := sound.close_inv point found refers called
    have frame := release_loop r₁ d ℓ
    obtain ⟨stands, pending⟩ := call_queue called ℓ
    have queues : ((r.pop cl.http.loop_ node.id).loops ℓ).pendingFunctors_ =
        (r.loops ℓ).pendingFunctors_ := setEpoll_pending r _ _ ℓ
    have settled := timed.settled (List.mem_of_find?_eq_some found) refers
    rw [frame.point, frame.pendingFunctors_, stands, pending]
    refine ⟨idle ℓ, ?_⟩
    rw [pop_point, queues]
    exact sound.settled alive settled ℓ
  | _ => cases own

/-- `epoll_wait` reports a descriptor once. -/
theorem eventsAt_once {events : List (Fd × Ready)} (once : (events.map (·.1)).Nodup) (fd : Fd) :
    eventsAt fd events = [] ∨
      ∃ ready, (fd, ready) ∈ events ∧ eventsAt fd events = [.reported ready] := by
  induction events with
  | nil => exact .inl rfl
  | cons e events ih =>
    obtain ⟨fd', ready⟩ := e
    obtain ⟨fresh, once⟩ := List.nodup_cons.mp once
    by_cases same : fd' = fd
    · subst same
      -- None of the other events is of this descriptor.
      have others : eventsAt fd' events = [] := by
        unfold eventsAt
        rw [List.map_eq_nil_iff, List.filter_eq_nil_iff]
        intro e member own
        exact fresh (List.mem_map.mpr ⟨e, member, of_decide_eq_true own⟩)
      refine .inr ⟨ready, List.mem_cons_self, ?_⟩
      simpa [eventsAt] using others
    · have here : eventsAt fd ((fd', ready) :: events) = eventsAt fd events := by
        simp [eventsAt, same]
      rw [here]
      rcases ih once with none | ⟨ready, member, single⟩
      · exact .inl none
      · exact .inr ⟨ready, List.mem_cons_of_mem _ member, single⟩

/-! ### One step -/

/-- Where the connection waits, by what has happened to it. -/
structure Placed (w : World) (c : ConnId) (r : Reactor) (es : List Encounter) : Prop where
  ret : ∀ ℓ, c ∈ (r.loops ℓ).point.ret →
    (∃ before ready, es = before ++ [.reported ready]) ∧ (Conn.after w es).heard
  waits : ∀ ℓ, c ∈ (r.loops ℓ).point.waiting ++ (r.loops ℓ).pendingFunctors_ → es = []

theorem placed_new (w : World) (c : ConnId) : Placed w c new [] where
  ret ℓ member := by cases member
  waits _ _ := rfl

/-- A handler of the connection. -/
theorem own_follows {es : List Encounter} (sound : r.Sound) (timed : r.Timed)
    (taken : step w r l = some r') (placed : Placed (w c) c r es)
    (mirrors : ∀ cl, r.conns c = some cl → Mirrors r cl (Conn.after (w c) es))
    (own : r.subject l = some c) : ∃ e, encounters c r l = [e] ∧ e.Follows (w c) es := by
  cases l with
  | handle ℓ a =>
    refine ⟨.handled a, if_pos own, ?_⟩
    exact placed.ret ℓ (List.mem_of_mem_head? own)
  | runFunctor ℓ a =>
    refine ⟨.enters a, if_pos own, ?_⟩
    exact placed.waits ℓ (List.mem_append_left _ (List.mem_of_mem_head? own))
  | expire ℓ id a =>
    refine ⟨.expires a, if_pos own, ?_⟩
    obtain ⟨node, queued, refers, due⟩ := expire_due timed taken own
    obtain ⟨cl, alive, rfl⟩ := sound.timers ℓ node queued c refers
    have watched := deadline_of_node sound alive queued refers
    rw [← (mirrors cl alive).counterpart.deadlines] at watched
    exact ⟨node.expiredTime_, watched, due⟩
  | _ => cases own

/-- A report of its descriptor. -/
theorem poll_follows {es : List Encounter} (sound : r.Sound) {ℓ : LoopId}
    {events : List (Fd × Ready)} (reported : reports (r.loops ℓ).epoll.interest events)
    (alive : r.conns c = some cl) (mirrors : Mirrors r cl (Conn.after (w c) es)) (woken : Bool) :
    encounters c r (.poll ℓ events woken) = [] ∧
        (∀ e ∈ events, (r.loops ℓ).epoll.fd2chan_ e.1 ≠ some c) ∨
      ∃ ready, encounters c r (.poll ℓ events woken) = [.reported ready] ∧
        cl.http.loop_ = ℓ ∧ (Encounter.reported ready).Follows (w c) es := by
  -- The channel is the one at its descriptor in its loop.
  have own {e : Fd × Ready} (entry : (r.loops ℓ).epoll.fd2chan_ e.1 = some c) :
      cl.http.loop_ = ℓ ∧ e.1 = cl.http.fd_ := by
    obtain ⟨here, same⟩ := sound.http_at alive (sound.chan ℓ e.1 c entry)
    exact ⟨here.symm, same⟩
  simp only [encounters, alive]
  by_cases here : cl.http.loop_ = ℓ
  · rw [if_pos here]
    rcases eventsAt_once reported.1 cl.http.fd_ with none | ⟨ready, member, single⟩
    · refine .inl ⟨none, fun e member entry => ?_⟩
      unfold eventsAt at none
      rw [List.map_eq_nil_iff, List.filter_eq_nil_iff] at none
      exact none e member (decide_eq_true (own entry).2)
    · refine .inr ⟨ready, single, here, ?_⟩
      obtain ⟨reg, registered, enabled, within⟩ := reported.2 _ member
      have registration : (Conn.after (w c) es).registration = (r.view cl).registration :=
        mirrors.counterpart.registration
      refine ⟨reg, ?_, enabled, within⟩
      rw [registration]
      unfold Conn.registration view
      rw [here]
      exact registered
  · rw [if_neg here]
    exact .inl ⟨rfl, fun e member entry => here (own entry).1⟩

/-- A step that calls no handler of the connection brings it nothing, or a report. -/
theorem idle_follows {es : List Encounter} (sound : r.Sound) (taken : step w r l = some r')
    (mirrors : ∀ cl, r.conns c = some cl → Mirrors r cl (Conn.after (w c) es))
    (idle : r.subject l ≠ some c) :
    encounters c r l = [] ∧ (∀ ℓ, c ∈ (r'.loops ℓ).point.ret → c ∈ (r.loops ℓ).point.ret) ∨
      ∃ ready cl, encounters c r l = [.reported ready] ∧ r.conns c = some cl ∧
        (Encounter.reported ready).Follows (w c) es := by
  cases alive : r.conns c with
  | none =>
    refine .inl ⟨encounters_unborn taken alive, fun ℓ member => (step_ret taken member).resolve_right ?_⟩
    rintro ⟨events, woken, e, rfl, _, entry⟩
    obtain ⟨cl, alive', _⟩ := sound.http ℓ e.1 c (sound.chan ℓ e.1 c entry)
    cases alive.symm.trans alive'
  | some cl =>
    have stays (silent : encounters c r l = [])
        (unreported : ∀ ℓ events woken, l = .poll ℓ events woken →
          ∀ e ∈ events, (r.loops ℓ).epoll.fd2chan_ e.1 ≠ some c) :
        encounters c r l = [] ∧ ∀ ℓ, c ∈ (r'.loops ℓ).point.ret → c ∈ (r.loops ℓ).point.ret := by
      refine ⟨silent, fun ℓ member => (step_ret taken member).resolve_right ?_⟩
      rintro ⟨events, woken, e, same, inside, entry⟩
      exact unreported ℓ events woken same e inside entry
    cases l with
    | poll ℓ events woken =>
      have reported : reports (r.loops ℓ).epoll.interest events := by
        cases step_steps taken with
        | poll _ _ _ _ reported => exact reported
      rcases poll_follows sound reported alive (mirrors cl alive) woken with
        ⟨silent, none⟩ | ⟨ready, single, _, follows⟩
      · refine .inl (stays silent fun ℓ' events' woken' same => ?_)
        cases same
        exact none
      · exact .inr ⟨ready, cl, single, rfl, follows⟩
    | handle ℓ a => exact .inl (stays (if_neg idle) (by simp))
    | runFunctor ℓ a => exact .inl (stays (if_neg idle) (by simp))
    | expire ℓ id a => exact .inl (stays (if_neg idle) (by simp))
    | _ => exact .inl (stays rfl (by simp))

/-- A step brings a connection nothing, or what may follow. -/
theorem Placed.step {es : List Encounter} (placed : Placed (w c) c r es) (sound : r.Sound)
    (timed : r.Timed) (taken : Reactor.step w r l = some r')
    (unborn : r.nextConn ≤ c → es = [])
    (mirrors : ∀ cl, r.conns c = some cl → Mirrors r cl (Conn.after (w c) es)) :
    (encounters c r l = [] ∨ ∃ e, encounters c r l = [e] ∧ e.Follows (w c) es) ∧
      Placed (w c) c r' (es ++ encounters c r l) := by
  by_cases own : r.subject l = some c
  · refine ⟨.inr (own_follows sound timed taken placed mirrors own), ?_, ?_⟩
    · intro ℓ member
      exact absurd member (own_placed sound timed taken own ℓ).1
    · intro ℓ waits
      exact absurd waits (own_placed sound timed taken own ℓ).2
  -- It has not entered its loop while it waits there.
  have before {ℓ : LoopId} (waits : c ∈ (r'.loops ℓ).point.waiting ++ (r'.loops ℓ).pendingFunctors_) :
      es = [] := by
    rcases step_waits sound taken waits with waited | made
    · exact placed.waits ℓ waited
    · exact unborn (Nat.le_of_eq made.symm)
  rcases idle_follows sound taken mirrors own with ⟨silent, kept⟩ | ⟨ready, cl, single, alive, follows⟩
  · rw [silent, List.append_nil]
    exact ⟨.inl rfl, fun ℓ member => placed.ret ℓ (kept ℓ member), fun ℓ waits => before waits⟩
  · rw [single]
    refine ⟨.inr ⟨_, rfl, follows⟩, fun ℓ member => ⟨⟨es, ready, rfl⟩, ?_⟩, fun ℓ waits => ?_⟩
    · have heard : (Conn.after (w c) es).heard := by
        rcases step_ret taken member with waited | ⟨events, woken, e, rfl, _, entry⟩
        · exact (placed.ret ℓ waited).2
        · refine (mirrors cl alive).counterpart.heard.mpr ?_
          obtain ⟨rfl, same⟩ := sound.http_at alive (sound.chan ℓ e.1 c entry)
          unfold Conn.heard view
          dsimp only
          rw [← same, entry, (sound.named c cl alive).1]
      rw [Conn.after_concat]
      exact (Conn.reported_heard _ ready).mpr heard
    · exact absurd (before waits) follows.began

/-! ### Runs -/

/-- What a run from the start brings to a connection comes in that order. -/
theorem exec_lifecycle {ls : List Label} (run : (machine w).exec new ls = some r) (c : ConnId) :
    Lifecycle (w c) (history w c ls) ∧ Placed (w c) c r (history w c ls) := by
  induction ls using List.reverseRecOn generalizing r with
  | nil =>
    cases run
    exact ⟨.nil, placed_new (w c) c⟩
  | append_singleton ls l ih =>
    obtain ⟨r₁, front, taken⟩ := Machine.exec_concat run
    obtain ⟨life, placed⟩ := ih front
    obtain ⟨unborn, mirrors⟩ := exec_mirrors front c
    obtain ⟨sound, timed, _⟩ := exec_owned front
    obtain ⟨follows, placed'⟩ := placed.step sound timed taken unborn mirrors
    rw [history_concat front taken]
    refine ⟨?_, placed'⟩
    rcases follows with silent | ⟨e, single, follows⟩
    · rwa [silent, List.append_nil]
    · rw [single]
      exact life.concat follows

/-- A handler that leaves the connection in the table leaves it alive. -/
theorem own_alive {s : Conn} (sound : r.Sound) (timed : r.Timed) (taken : step w r l = some r')
    (own : r.subject l = some c) (alive : r.conns c = some cl) (mirrors : Mirrors r cl s)
    (listed : ((encounters c r l).foldl (Conn.encounter (w c)) s).listed) :
    ∃ cl', r'.conns c = some cl' := by
  cases step_steps taken with
  | handle ℓ a d ret r₁ point called =>
    obtain rfl : d = c := by simpa [subject, point, LoopPoint.ret] using own
    have stored := sound.handle point called
    obtain ⟨dl, alive₁, rfl, _, _, _, _, rfl⟩ := sound.handle_inv point called
    cases alive.symm.trans alive₁
    obtain ⟨link, ordered⟩ := mirrors.order.given a
    have left := (mirrors.counterpart.given a).handleEvents (w d) (timed.conn sound alive a) ordered
    have single : encounters d r (.handle cl.http.loop_ a) = [.handled a] := if_pos own
    rw [single] at listed
    let s' := handleEvents (w d) (cl.conn a (r.loops cl.http.loop_).epoll)
    let stays := (r.setPoint cl.http.loop_ (.handling ret)).store d s'
    have entry : s'.listed := left.listed.mp listed
    have there : stays.conns d = some ⟨s'.http, s'.wire⟩ := update_self _ _ _
    have this : s'.http.this = d := (stored.named d _ there).1
    have kept : stays.release d = stays := by
      refine release_listed _ there ?_
      rw [store_epoll]
      exact entry.trans (congrArg some this)
    exact ⟨_, (congrArg (·.conns d) kept).trans there⟩
  | runFunctor ℓ a done d rest r₁ point called =>
    obtain rfl : d = c := by simpa [subject, point, LoopPoint.waiting] using own
    obtain ⟨_, _, rfl⟩ := Option.map_eq_some_iff.mp called
    exact ⟨_, update_self _ _ _⟩
  | drop ℓ a node _ found idle => simp [subject, found, idle] at own
  | close ℓ a node d r₁ _ found refers _ =>
    have single : encounters c r (.expire ℓ node.id a) = [.expires a] := if_pos own
    rw [single] at listed
    -- `handleClose` has removed the entry.
    exact absurd listed (handleClose_closed (s.expired.given a)).unlisted
  | _ => cases own

/-- A connection that its encounters leave in the table of its loop has not been destroyed. -/
theorem exec_alive {ls : List Label} (run : (machine w).exec new ls = some r) (c : ConnId)
    (listed : (Conn.after (w c) (history w c ls)).listed) : ∃ cl, r.conns c = some cl := by
  induction ls using List.reverseRecOn generalizing r with
  | nil => cases listed
  | append_singleton ls l ih =>
    obtain ⟨r₁, front, taken⟩ := Machine.exec_concat run
    obtain ⟨sound, timed, _⟩ := exec_owned front
    have mirrors := (exec_mirrors front c).2
    rw [history_concat front taken] at listed
    unfold Conn.after at listed
    rw [List.foldl_append] at listed
    cases alive : r₁.conns c with
    | none =>
      rw [encounters_unborn taken alive] at listed
      obtain ⟨cl, alive'⟩ := ih front listed
      cases alive.symm.trans alive'
    | some cl =>
      by_cases own : r₁.subject l = some c
      · exact own_alive sound timed taken own alive (mirrors cl alive) listed
      · -- The entry is as old as the last handler.
        have listed' : (Conn.after (w c) (history w c ls)).listed := by
          rcases idle_follows sound taken mirrors own with ⟨silent, _⟩ | ⟨ready, _, single, _⟩
          · rwa [silent] at listed
          · rw [single] at listed
            exact (Conn.reported_listed _ ready).mp listed
        have entry := (mirrors cl alive).counterpart.listed.mp listed'
        unfold Conn.listed view at entry
        dsimp only at entry
        rw [(sound.named c cl alive).1] at entry
        have still := (step_entries sound taken entry).resolve_left own
        obtain ⟨cl', alive', _⟩ := (sound.step r₁ l r taken).http _ _ c still
        exact ⟨cl', alive'⟩

/-- In every run a connection enters its loop before anything else happens to it, and once; its
handler is called directly behind a report of its descriptor, while its channel is in the table;
only a timeout that is over closes it, and behind that its descriptor is reported at most; and as
long as the table has it, it is not destroyed. -/
theorem lifecycle {ls : List Label} (run : (machine w).exec new ls = some r) (c : ConnId) :
    (∀ front e back, history w c ls = front ++ e :: back →
      e.Follows (w c) front ∧ ((∃ a, e = .enters a) ↔ front = []) ∧
        ((∃ a, e = .expires a) → ∀ later ∈ back, ∃ ready, later = .reported ready)) ∧
      ((Conn.after (w c) (history w c ls)).listed → ∃ cl, r.conns c = some cl) := by
  obtain ⟨life, _⟩ := exec_lifecycle run c
  refine ⟨fun front e back split => ?_, exec_alive run c⟩
  have follows := life.follows split
  refine ⟨follows, ⟨?_, ?_⟩, ?_⟩
  · rintro ⟨a, rfl⟩
    exact follows
  · rintro rfl
    rw [split] at life
    exact life.enters_first
  · rintro ⟨a, rfl⟩
    rw [split, ← List.singleton_append, ← List.append_assoc] at life
    refine life.gone (by simp) ?_
    rw [Conn.after_concat]
    exact Conn.expires_gone (w c) _ a

instance (s : Conn) : Decidable s.listed := inferInstanceAs (Decidable (_ = _))

/-- A connection that is answered beside one that times out. -/
theorem lifecycle_crowded : ∃ r before, (machine fun _ => World.bare).exec new crowded = some r ∧
    let request := bringing (bytes "GET /hello HTTP/1.1\r\nConnection: keep-alive\r\n\r\n")
    history (fun _ => World.bare) 1 crowded = before ++ [.handled request] ∧
      (Encounter.handled request).Follows .bare before ∧ ∃ cl, r.conns 1 = some cl := by
  obtain ⟨r, run, _⟩ := Machine.exec_any (M := machine fun _ => World.bare)
    (fun _ => True) new crowded (by decide +kernel)
  have split : history (fun _ => World.bare) 1 crowded =
      (history (fun _ => World.bare) 1 crowded).dropLast ++ [.handled (bringing
        (bytes "GET /hello HTTP/1.1\r\nConnection: keep-alive\r\n\r\n"))] := by
    decide +kernel
  obtain ⟨order, kept⟩ := lifecycle run 1
  exact ⟨r, _, run, split, (order _ _ [] split).1, kept (by decide +kernel)⟩

end Reactor
end LightAgent

import LightAgent.Reactor.Handover
import LightAgent.Server
import Mathlib.Data.Int.CardIntervalMod

/-!
# From accept to the loops

`handNewConn` asks `getNextLoop` for each descriptor that `accept` returns, also for one it closes.
What it does with them are the steps of the accepting thread in the reactor; so which loop a
connection enters is settled by the order of the descriptors alone.
-/
namespace LightAgent

open Library Function

/-! ### Turns of the loops -/

/-- The loop that `getNextLoop` returns after so many calls. -/
def EventLoopThreadPool.loopAt (pool : EventLoopThreadPool) (calls : Nat) : LoopId :=
  pool.loops_.get ⟨(pool.next_ + calls) % pool.numThreads_, by
    rw [pool.started]
    exact Nat.mod_lt _ (Nat.zero_lt_of_lt pool.inRange)⟩

theorem EventLoopThreadPool.getNextLoop_loopAt (pool : EventLoopThreadPool) :
    pool.getNextLoop.1 = pool.loopAt 0 ∧
      ∀ calls, pool.getNextLoop.2.loopAt calls = pool.loopAt (calls + 1) := by
  constructor
  · simp [getNextLoop, loopAt, Nat.mod_eq_of_lt pool.inRange]
  · intro calls
    have same : ((pool.next_ + 1) % pool.numThreads_ + calls) % pool.numThreads_ =
        (pool.next_ + (calls + 1)) % pool.numThreads_ := by
      rw [Nat.mod_add_mod, Nat.add_assoc, Nat.add_comm 1]
    simp [getNextLoop, loopAt, same]

/-- The loops that the next calls return. -/
def EventLoopThreadPool.rounds (pool : EventLoopThreadPool) (calls : Nat) : List LoopId :=
  (List.range calls).map pool.loopAt

theorem EventLoopThreadPool.rounds_succ (pool : EventLoopThreadPool) (calls : Nat) :
    pool.rounds (calls + 1) = pool.getNextLoop.1 :: pool.getNextLoop.2.rounds calls := by
  obtain ⟨first, rest⟩ := pool.getNextLoop_loopAt
  unfold rounds
  rw [List.range_succ_eq_map, List.map_cons, List.map_map, first]
  exact congrArg _ (List.map_congr_left fun k _ => (rest k).symm)

/-- A loop comes up at every call of one residue. -/
theorem EventLoopThreadPool.loopAt_iff (pool : EventLoopThreadPool) (distinct : pool.loops_.Nodup)
    {ℓ : LoopId} (member : ℓ ∈ pool.loops_) :
    ∃ v, ∀ calls, pool.loopAt calls = ℓ ↔ calls ≡ v [MOD pool.numThreads_] := by
  obtain ⟨i, rfl⟩ := List.get_of_mem member
  have inside : i.val < pool.numThreads_ := pool.started ▸ i.isLt
  have before := pool.inRange
  refine ⟨i.val + (pool.numThreads_ - pool.next_), fun calls => ?_⟩
  unfold loopAt
  rw [distinct.get_inj_iff, Fin.ext_iff]
  change (pool.next_ + calls) % pool.numThreads_ = i.val ↔ _
  constructor
  · intro here
    have sum : pool.next_ + calls ≡ i.val [MOD pool.numThreads_] := by
      rw [Nat.ModEq, here, Nat.mod_eq_of_lt inside]
    have moved := sum.add_right (pool.numThreads_ - pool.next_)
    have turn : pool.next_ + calls + (pool.numThreads_ - pool.next_) = calls + pool.numThreads_ := by
      omega
    rw [turn] at moved
    exact (Nat.ModEq.symm (Nat.add_modEq_right ..)).trans moved
  · intro same
    have moved := same.add_left pool.next_
    have turn : pool.next_ + (i.val + (pool.numThreads_ - pool.next_)) = i.val + pool.numThreads_ := by
      omega
    rw [turn] at moved
    have sum := moved.trans (Nat.add_modEq_right ..)
    rwa [Nat.ModEq, Nat.mod_eq_of_lt inside] at sum

theorem EventLoopThreadPool.rounds_prefix {pool : EventLoopThreadPool} {calls : Nat}
    {given : List LoopId} (before : given <+: pool.rounds calls) :
    given = pool.rounds given.length := by
  have short : given.length ≤ calls := by simpa [rounds] using before.length_le
  have taken := List.prefix_iff_eq_take.mp before
  unfold rounds at taken ⊢
  rw [← List.map_take, List.take_range, Nat.min_eq_left short] at taken
  exact taken

/-- After so many calls, each loop has had its share of them, or one more. -/
theorem EventLoopThreadPool.rounds_count (pool : EventLoopThreadPool) (distinct : pool.loops_.Nodup)
    {ℓ : LoopId} (member : ℓ ∈ pool.loops_) (calls : Nat) :
    calls / pool.numThreads_ ≤ (pool.rounds calls).count ℓ ∧
      (pool.rounds calls).count ℓ ≤ calls / pool.numThreads_ + 1 := by
  obtain ⟨v, residue⟩ := pool.loopAt_iff distinct member
  have counted : (pool.rounds calls).count ℓ = calls.count (· ≡ v [MOD pool.numThreads_]) := by
    unfold rounds
    induction calls with
    | zero => rfl
    | succ calls ih =>
      rw [List.range_succ, List.map_append, List.count_append, ih, Nat.count_succ]
      simp [List.count_singleton, residue calls]
  rw [counted, Nat.count_modEq_card _ (Nat.zero_lt_of_lt pool.inRange)]
  split
  · exact ⟨Nat.le_succ _, Nat.le_refl _⟩
  · exact ⟨Nat.le_refl _, Nat.le_succ _⟩

/-! ### The steps of handNewConn -/

/-- The loop that `getNextLoop` gives the descriptor of the step; none is asked for descriptor 0. -/
def Reactor.Label.given : Reactor.Label → Option LoopId
  | .accept fd ℓ _ => if fd = 0 then none else some ℓ
  | _ => none

namespace Server

open Reactor (Label)

/-- The steps of the accepting thread in the loop of `handNewConn`. -/
def acceptLabels (pool : EventLoopThreadPool) : List AcceptOutcome → List Label
  | [] => []
  | o :: os =>
    if o.fd = 0 then [.accept 0 0 o.nonBlocking]
    else
      let (loop, pool) := pool.getNextLoop
      .accept o.fd loop o.nonBlocking ::
        if o.fd ≥ MAXFDS then acceptLabels pool os
        else if !o.nonBlocking then []
        else .accepted :: acceptLabels pool os

/-- The steps of the accepting thread in the turn. -/
def labels (s : Server) (t : Turn) : List Label :=
  if returnsEarly t.ready.events then []
  else if t.ready.events.has (EPOLLIN ||| EPOLLPRI ||| EPOLLRDHUP) then
    acceptLabels s.eventLoopThreadPool_ t.outcomes
  else []

/-- What the turn queues. -/
def queues (s : Server) (t : Turn) : List (LoopId × Fd) :=
  ((s.turn t).map (·.2.queued)).getD []

/-- What the loop of `handNewConn` queues is what its steps make, and the loops are given in turn. -/
theorem acceptFrom_labels (s : Server) (taken : Taken) (os : List AcceptOutcome) :
    (s.acceptFrom taken os).2.queued =
        taken.queued ++ (acceptLabels s.eventLoopThreadPool_ os).filterMap Label.made ∧
      ∀ calls, s.eventLoopThreadPool_.rounds
          (((acceptLabels s.eventLoopThreadPool_ os).filterMap Label.given).length + calls) =
        (acceptLabels s.eventLoopThreadPool_ os).filterMap Label.given ++
          (s.acceptFrom taken os).1.eventLoopThreadPool_.rounds calls := by
  induction os generalizing s taken with
  | nil => simp [acceptFrom, acceptLabels, setEvents]
  | cons o os ih =>
    rw [acceptFrom, acceptLabels]
    dsimp only
    by_cases none_ : o.fd = 0
    · simp [none_, setEvents, Label.made, Label.given, Reactor.Usable]
    · simp only [none_, if_false]
      have later (taken : Taken) :=
        ih { s with eventLoopThreadPool_ := s.eventLoopThreadPool_.getNextLoop.2 } taken
      dsimp only at later
      -- Each of the branches behind `getNextLoop` has used up one call.
      have counts (ls : List Label) (s' : Server)
          (rest : ∀ calls, s.eventLoopThreadPool_.getNextLoop.2.rounds
              ((ls.filterMap Label.given).length + calls) =
            ls.filterMap Label.given ++ s'.eventLoopThreadPool_.rounds calls) (calls : Nat) :
          s.eventLoopThreadPool_.rounds ((ls.filterMap Label.given).length + 1 + calls) =
            s.eventLoopThreadPool_.getNextLoop.1 :: (ls.filterMap Label.given ++
              s'.eventLoopThreadPool_.rounds calls) := by
        rw [Nat.add_right_comm, EventLoopThreadPool.rounds_succ, rest]
      by_cases large : o.fd ≥ MAXFDS
      · obtain ⟨queued, given⟩ := later { taken with
          accepted := taken.accepted ++ [o.fd], closed := taken.closed ++ [o.fd] }
        have unusable : ¬Reactor.Usable o.fd o.nonBlocking := fun usable =>
          absurd usable.2.1 (Nat.not_lt.mpr large)
        simp only [large, if_true, List.filterMap_cons, Label.made, Label.given, unusable, none_,
          if_false, List.length_cons]
        exact ⟨queued, counts _ _ given⟩
      · cases blocking : o.nonBlocking with
        | false =>
          simp [large, none_, Label.made, Label.given, Reactor.Usable, Nat.add_comm 1,
            EventLoopThreadPool.rounds_succ]
        | true =>
          obtain ⟨queued, given⟩ := later { taken with
            accepted := taken.accepted ++ [o.fd]
            queued := taken.queued ++ [(s.eventLoopThreadPool_.getNextLoop.1, o.fd)] }
          have usable : Reactor.Usable o.fd true :=
            ⟨Nat.pos_of_ne_zero none_, Nat.not_le.mp large, rfl⟩
          simp only [large, if_false, Bool.not_true, Bool.false_eq_true, List.filterMap_cons,
            Label.made, Label.given, usable, none_, if_true, List.length_cons]
          refine ⟨?_, counts _ _ given⟩
          rw [queued, List.append_assoc, List.singleton_append]

theorem handThisConn_pool (s : Server) (epollCtl : Bool) :
    (s.handThisConn epollCtl).eventLoopThreadPool_ = s.eventLoopThreadPool_ := by
  unfold handThisConn
  dsimp only
  split
  · rfl
  · split <;> rfl

theorem handleEvents_idle {s : Server} {t : Turn}
    (heard : returnsEarly s.acceptChannel_.revents_ = false)
    (unreadable : ¬s.acceptChannel_.revents_.has (EPOLLIN ||| EPOLLPRI ||| EPOLLRDHUP) = true) :
    s.handleEvents t = ((s.setEvents 0).handThisConn t.epollCtl, ⟨[], [], []⟩) := by
  unfold handleEvents
  dsimp only [setEvents]
  rw [heard, if_neg Bool.false_ne_true, if_neg unreadable]

/-- The handlers of the channel take the steps of the descriptors. -/
theorem handleEvents_labels {s : Server} {t : Turn}
    (revents : s.acceptChannel_.revents_ = t.ready.events) :
    (s.handleEvents t).2.queued = (s.labels t).filterMap Label.made ∧
      ∀ calls, s.eventLoopThreadPool_.rounds (((s.labels t).filterMap Label.given).length + calls) =
        (s.labels t).filterMap Label.given ++
          (s.handleEvents t).1.eventLoopThreadPool_.rounds calls := by
  unfold labels
  rw [← revents]
  by_cases early : returnsEarly s.acceptChannel_.revents_ = true
  · rw [handleEvents_early early, if_pos early]
    exact ⟨rfl, fun calls => congrArg _ (Nat.zero_add calls)⟩
  · have heard : returnsEarly s.acceptChannel_.revents_ = false := by simpa using early
    rw [if_neg early]
    by_cases readable : s.acceptChannel_.revents_.has (EPOLLIN ||| EPOLLPRI ||| EPOLLRDHUP) = true
    · rw [handleEvents_reads heard readable, if_pos readable]
      dsimp only
      rw [handThisConn_pool]
      exact acceptFrom_labels (s.setEvents 0) ⟨[], [], []⟩ t.outcomes
    · rw [handleEvents_idle heard readable, if_neg readable]
      dsimp only
      rw [handThisConn_pool]
      exact ⟨rfl, fun calls => congrArg _ (Nat.zero_add calls)⟩

/-- A turn takes the steps of its descriptors. -/
theorem turn_labels {s s' : Server} {t : Turn} (taken : machine.step s t = some s') :
    s.queues t = (s.labels t).filterMap Label.made ∧
      ∀ calls, s.eventLoopThreadPool_.rounds (((s.labels t).filterMap Label.given).length + calls) =
        (s.labels t).filterMap Label.given ++ s'.eventLoopThreadPool_.rounds calls := by
  obtain ⟨p, turned, rfl⟩ := Option.map_eq_some_iff.mp taken
  unfold queues
  rw [turned]
  unfold turn at turned
  split at turned
  next =>
    cases turned
    exact handleEvents_labels (s := s.handOut t.ready) rfl
  next => cases turned

/-- Over a run the loops are given in turn. -/
theorem exec_labels {s s' : Server} {ts : List Turn} (run : machine.exec s ts = some s') :
    machine.output queues s ts = (machine.output labels s ts).filterMap Label.made ∧
      ∀ calls, s.eventLoopThreadPool_.rounds
          (((machine.output labels s ts).filterMap Label.given).length + calls) =
        (machine.output labels s ts).filterMap Label.given ++ s'.eventLoopThreadPool_.rounds calls := by
  induction ts generalizing s with
  | nil =>
    cases run
    exact ⟨rfl, fun calls => congrArg _ (Nat.zero_add calls)⟩
  | cons t ts ih =>
    obtain ⟨next, taken, rest⟩ := Machine.exec_step run
    obtain ⟨queued, given⟩ := turn_labels taken
    obtain ⟨queued', given'⟩ := ih rest
    rw [Machine.output_cons _ taken, Machine.output_cons _ taken, List.filterMap_append,
      List.filterMap_append, queued, queued', List.length_append]
    refine ⟨rfl, fun calls => ?_⟩
    rw [Nat.add_assoc, given, given', List.append_assoc]

end Server

namespace Reactor

variable {r : Reactor} {ls : List Label}

/-- The connections that have entered the loop, and those that wait to. -/
def arrived (r : Reactor) (ℓ : LoopId) (hs : List Handoff) : List ConnId :=
  entries hs ++ (r.loops ℓ).point.waiting ++ (r.loops ℓ).pendingFunctors_

/-- A connection is made for the loop that was given. -/
theorem made_given (ls : List Label) :
    ((ls.filterMap Label.made).map (·.1)).Sublist (ls.filterMap Label.given) := by
  induction ls with
  | nil => exact .slnil
  | cons l ls ih =>
    cases l with
    | accept fd ℓ nonBlocking =>
      simp only [List.filterMap_cons, Label.made, Label.given]
      by_cases makes : Usable fd nonBlocking
      · rw [if_pos makes, if_neg (Nat.ne_of_gt makes.1)]
        exact ih.cons_cons ℓ
      · rw [if_neg makes]
        by_cases none_ : fd = 0
        · rw [if_pos none_]
          exact ih
        · rw [if_neg none_]
          exact ih.cons ℓ
    | _ => exact ih

theorem numbersOf_length (ℓ : LoopId) (first : ConnId) (made : List (LoopId × Fd)) :
    (numbersOf ℓ first made).length = (made.map (·.1)).count ℓ := by
  induction made generalizing first with
  | nil => rfl
  | cons m made ih =>
    rw [numbersOf_cons, List.length_append, ih, List.map_cons, List.count_cons]
    by_cases here : m.1 = ℓ
    · simp [here, Nat.add_comm]
    · simp [here]

/-- The accepting thread does nothing else that counts. -/
theorem filterMap_main {α : Type*} (f : Label → Option α)
    (main : ∀ l, l.thread ≠ none → f l = none) (ls : List Label) :
    (ls.filter (·.thread = none)).filterMap f = ls.filterMap f := by
  induction ls with
  | nil => rfl
  | cons l ls ih =>
    by_cases own : l.thread = none
    · simp [List.filterMap_cons, own, ih]
    · simp [own, ih, main l own]

/-- Where the accepting thread serves the listening channel, the `k`-th descriptor but 0 that `accept`
returns is given to the `k`-th loop in turn, what `handNewConn` queues is what the reactor makes,
and no loop has been given more than one connection more than another one, apart from the
descriptors of which no connection was made. -/
theorem round_robin {s s' : Server} {ts : List Server.Turn}
    (served : Server.machine.exec s ts = some s') (distinct : s.eventLoopThreadPool_.loops_.Nodup)
    {w : ConnId → World} (run : (machine w).exec new ls = some r)
    (mains : ls.filter (·.thread = none) <+: Server.machine.output Server.labels s ts) :
    ls.filterMap Label.made <+: Server.machine.output Server.queues s ts ∧
      ls.filterMap Label.given = s.eventLoopThreadPool_.rounds (ls.filterMap Label.given).length ∧
      ∀ ℓ ∈ s.eventLoopThreadPool_.loops_, ∀ ℓ' ∈ s.eventLoopThreadPool_.loops_,
        (r.arrived ℓ ((machine w).output (handoffs ℓ) new ls)).length +
            (ls.filterMap Label.made).length ≤
          (r.arrived ℓ' ((machine w).output (handoffs ℓ') new ls)).length +
            (ls.filterMap Label.given).length + 1 := by
  obtain ⟨queued, given⟩ := Server.exec_labels served
  have made : ls.filterMap Label.made <+: Server.machine.output Server.queues s ts := by
    rw [queued, ← filterMap_main Label.made (fun l other => ?_) ls]
    · exact mains.filterMap _
    · cases l with
      | accept => exact absurd rfl other
      | _ => rfl
  have turns : ls.filterMap Label.given =
      s.eventLoopThreadPool_.rounds (ls.filterMap Label.given).length := by
    have all := given 0
    rw [show s'.eventLoopThreadPool_.rounds 0 = [] from rfl, List.append_nil] at all
    apply EventLoopThreadPool.rounds_prefix
    rw [all, ← filterMap_main Label.given (fun l other => ?_) ls]
    · exact mains.filterMap _
    · cases l with
      | accept => exact absurd rfl other
      | _ => rfl
  refine ⟨made, turns, fun ℓ member ℓ' member' => ?_⟩
  unfold arrived
  rw [← queue_order run, ← queue_order run, numbersOf_length, numbersOf_length]
  have sub := made_given ls
  have most := sub.count_le ℓ
  have least := sub.le_count ℓ'
  have share := (s.eventLoopThreadPool_.rounds_count distinct member (ls.filterMap Label.given).length).2
  have share' := (s.eventLoopThreadPool_.rounds_count distinct member' (ls.filterMap Label.given).length).1
  rw [← turns] at share share'
  have shorter := sub.length_le
  rw [List.length_map] at least shorter
  omega

/-- Three connections and a descriptor that is too large come in at two workers; the first loop
works meanwhile. -/
def crowding : List Label := [.accept 5 1 true, .accepted, .accept 100000 2 false,
  .accept 6 1 true, .accepted, .poll 1 [] true, .startFunctors 1, .runFunctor 1 (quietAt 0),
  .accept 7 2 true, .accepted]

theorem round_robin_crowding : ∃ s' r,
    Server.machine.exec .sample [Server.incoming [⟨5, true⟩, ⟨100000, false⟩, ⟨6, true⟩],
      Server.incoming [⟨7, true⟩]] = some s' ∧
    (machine fun _ => World.bare).exec new crowding = some r ∧
    crowding.filterMap Label.given = [1, 2, 1, 2] ∧
    crowding.filterMap Label.given = Server.sample.eventLoopThreadPool_.rounds 4 ∧
    (r.arrived 1 ((machine fun _ => World.bare).output (handoffs 1) new crowding)).length + 3 ≤
      (r.arrived 2 ((machine fun _ => World.bare).output (handoffs 2) new crowding)).length + 5 := by
  obtain ⟨s', served, _⟩ := Machine.exec_any (M := Server.machine) (fun _ => True) .sample
    [Server.incoming [⟨5, true⟩, ⟨100000, false⟩, ⟨6, true⟩], Server.incoming [⟨7, true⟩]]
    (by decide +kernel)
  obtain ⟨r, run, _⟩ := Machine.exec_any (M := machine fun _ => World.bare) (fun _ => True)
    new crowding (by decide +kernel)
  obtain ⟨_, turns, share⟩ := round_robin served (by decide) run (by decide +kernel)
  exact ⟨s', r, served, run, by decide, turns, share 1 (by decide) 2 (by decide)⟩

end Reactor

end LightAgent

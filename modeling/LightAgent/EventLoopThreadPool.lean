import LightAgent.Base.CountDownLatch
import LightAgent.Server
import Mathlib.Data.Fintype.BigOperators

/-!
# EventLoopThreadPool::start

The main thread starts one thread after another: `pthread_create`, the latch of `Thread::start`,
then the loop that `threadFunc` publishes. Each new thread goes its own way meanwhile.
-/
namespace LightAgent

open Library Function

namespace EventLoopThreadPool

/-- What the main thread shares with one `EventLoopThread`. -/
structure Thread where
  /-- `pthread_create` has made it -/
  created : Bool
  tid_ : Int
  /-- of `latch_` -/
  count_ : Int32
  loop_ : Option LoopId
  deriving DecidableEq, Repr

structure Starting where
  threads_ : Nat → Thread
  loops_ : List (Option LoopId)
  /-- an assertion has failed -/
  aborted : Bool

/-- One of the two condition variables of a thread. -/
inductive Cond where
  | latch_ (i : Nat)
  | cond_ (i : Nat)
  deriving DecidableEq, Repr

inductive Method where
  /-- `pthread_create` in `Thread::start` -/
  | create (i : Nat)
  /-- `latch_.wait()` -/
  | wait (i : Nat)
  /-- `assert(tid_ > 0)` -/
  | assertTid (i : Nat)
  /-- the block of `startLoop` under `mutex_` -/
  | waitLoop (i : Nat)
  /-- `loops_.push_back(t->startLoop())` -/
  | pushBack (i : Nat)
  /-- `*tid_ = CurrentThread::tid()` -/
  | setTid (i : Nat)
  /-- `latch_->countDown()` -/
  | countDown (i : Nat)
  /-- the block of `threadFunc` under `mutex_` -/
  | publish (i : Nat)
  deriving DecidableEq, Repr

/-- The thread is changed. -/
def Starting.setThread (s : Starting) (i : Nat) (f : Thread → Thread) : Starting :=
  { s with threads_ := update s.threads_ i (f (s.threads_ i)) }

/-- A call of `latch_` of the thread. -/
def latchCall (m : CountDownLatch.Method) (i : Nat) : Call Starting Cond :=
  (CountDownLatch.call m).within (fun s => (s.threads_ i).count_)
    (fun count_ s => s.setThread i ({ · with count_ := count_ })) (fun _ => .latch_ i)

/-- `created` tells which calls of `pthread_create` succeed, `tid` what `gettid` returns. The loop
of a thread has its number as its name. -/
def call (created : Nat → Bool) (tid : Nat → Int) : Method → Call Starting Cond
  | .create i => ⟨fun _ => true, none, (·.setThread i ({ · with created := created i })), fun _ => .none⟩
  | .wait i => latchCall .wait i
  | .assertTid i =>
    ⟨fun _ => true, none, fun s => { s with aborted := s.aborted || decide ((s.threads_ i).tid_ ≤ 0) },
      fun _ => .none⟩
  | .waitLoop i => ⟨fun s => (s.threads_ i).loop_.isSome, some (.cond_ i), id, fun _ => .none⟩
  | .pushBack i =>
    ⟨fun _ => true, none, fun s => { s with loops_ := s.loops_ ++ [(s.threads_ i).loop_] }, fun _ => .none⟩
  | .setTid i =>
    ⟨fun s => (s.threads_ i).created, none, (·.setThread i ({ · with tid_ := tid i })), fun _ => .none⟩
  | .countDown i => latchCall .countDown i
  | .publish i =>
    ⟨fun _ => true, none, (·.setThread i ({ · with loop_ := some i })), fun _ => .one (.cond_ i)⟩

/-- `startLoop`, with `Thread::start` in it, and the `push_back` behind it. -/
def startLoop (created : Nat → Bool) (i : Nat) : List Method :=
  .create i :: (if created i then [.wait i, .assertTid i] else []) ++ [.waitLoop i, .pushBack i]

/-- `startThread` and `threadFunc`, up to `loop`. -/
def startThread (i : Nat) : List Method := [.setTid i, .countDown i, .publish i]

/-- `EventLoopThreadPool::start` from this thread on, in the main thread. -/
def startFrom (created : Nat → Bool) (numThreads_ : Nat) (i : Nat) : List Method :=
  (List.range' i (numThreads_ - i)).flatMap (startLoop created)

/-- The main thread is `none`. -/
def programs (created : Nat → Bool) (numThreads_ : Nat) : Option (Fin numThreads_) → List Method
  | none => startFrom created numThreads_ 0
  | some i => startThread i

def fresh : Starting := ⟨fun _ => ⟨false, 0, 1, none⟩, [], false⟩

variable {created : Nat → Bool} {tid : Nat → Int} {numThreads_ : Nat}

theorem startFrom_lt {i : Nat} (inside : i < numThreads_) : startFrom created numThreads_ i =
    startLoop created i ++ startFrom created numThreads_ (i + 1) := by
  unfold startFrom
  have one : numThreads_ - i = numThreads_ - (i + 1) + 1 := by omega
  rw [one, List.range'_succ, List.flatMap_cons]

theorem startFrom_ge {i : Nat} (outside : numThreads_ ≤ i) : startFrom created numThreads_ i = [] := by
  simp [startFrom, Nat.sub_eq_zero_of_le outside]

/-! ### Where the threads stand -/

/-- A new thread, by the calls that it has still to make. -/
inductive Stage (created : Nat → Bool) (tid : Nat → Int) (i : Nat) : Thread → List Method → Prop
  | new (here : Bool) : (here = true → created i = true) →
      Stage created tid i ⟨here, 0, 1, none⟩ (startThread i)
  | named : created i = true →
      Stage created tid i ⟨true, tid i, 1, none⟩ [.countDown i, .publish i]
  | counted : created i = true → Stage created tid i ⟨true, tid i, 0, none⟩ [.publish i]
  | published : created i = true → Stage created tid i ⟨true, tid i, 0, some i⟩ []

/-- The main thread is about to start this thread, or does. -/
inductive At (created : Nat → Bool) (numThreads_ i : Nat) (th : Thread) : List Method → Prop
  | between : th.created = false → At created numThreads_ i th (startFrom created numThreads_ i)
  | created : i < numThreads_ → created i = true → th.created = true → At created numThreads_ i th
      (.wait i :: .assertTid i :: .waitLoop i :: .pushBack i :: startFrom created numThreads_ (i + 1))
  | counted : i < numThreads_ → th.created = created i → th.count_ ≤ 0 → At created numThreads_ i th
      (.assertTid i :: .waitLoop i :: .pushBack i :: startFrom created numThreads_ (i + 1))
  | started : i < numThreads_ → th.created = created i → At created numThreads_ i th
      (.waitLoop i :: .pushBack i :: startFrom created numThreads_ (i + 1))
  | found : i < numThreads_ → th.loop_ = some i → At created numThreads_ i th
      (.pushBack i :: startFrom created numThreads_ (i + 1))

/-- The main thread has started so many threads, and goes on with the next one. -/
structure Underway (created : Nat → Bool) (tid : Nat → Int) (numThreads_ k : Nat)
    (s : Threads (Option (Fin numThreads_)) Method Starting) : Prop where
  le : k ≤ numThreads_
  stage : ∀ i : Fin numThreads_, Stage created tid i (s.data.threads_ i) (s.rest (some i))
  main : At created numThreads_ k (s.data.threads_ k) (s.rest none)
  loops_ : s.data.loops_ = (List.range k).map some
  published : ∀ i < k, created i = true ∧ s.data.threads_ i = ⟨true, tid i, 0, some i⟩
  unborn : ∀ i > k, (s.data.threads_ i).created = false
  aborted : s.data.aborted = false

theorem underway_fresh (created : Nat → Bool) (tid : Nat → Int) (numThreads_ : Nat) :
    Underway created tid numThreads_ 0 ⟨fresh, programs created numThreads_⟩ where
  le := Nat.zero_le _
  stage _ := .new false nofun
  main := .between rfl
  loops_ := rfl
  published i less := absurd less (Nat.not_lt_zero i)
  unborn _ _ := rfl
  aborted := rfl

/-- What a step of a new thread does to it. -/
theorem stage_step {i : Nat} {s : Starting} {m : Method} {ms : List Method}
    (stage : Stage created tid i (s.threads_ i) (m :: ms))
    (ready : (call created tid m).ready s = true) :
    ∃ th, (call created tid m).body s = s.setThread i (fun _ => th) ∧ Stage created tid i th ms ∧
      th.created = (s.threads_ i).created ∧ th.count_ ≤ (s.threads_ i).count_ ∧
      ((s.threads_ i).loop_ = some i → th.loop_ = some i) := by
  generalize before : s.threads_ i = th at stage
  generalize calls : m :: ms = rest at stage
  cases stage with
  | new here made =>
    cases calls
    have here_ : here = true := by simpa [call, before] using ready
    subst here_
    refine ⟨⟨true, tid i, 1, none⟩, ?_, .named (made rfl), rfl, Int32.le_refl _, nofun⟩
    simp [call, Starting.setThread, before]
  | named made =>
    cases calls
    refine ⟨⟨true, tid i, 0, none⟩, ?_, .counted made, rfl, show (0 : Int32) ≤ 1 by decide, nofun⟩
    simp [call, latchCall, Call.within, CountDownLatch.call, Starting.setThread, before]
  | counted made =>
    cases calls
    refine ⟨⟨true, tid i, 0, some i⟩, ?_, .published made, rfl, Int32.le_refl _, fun _ => rfl⟩
    simp [call, Starting.setThread, before]
  | published made => cases calls

/-- A thread that has counted down has its identifier. -/
theorem Stage.tid_ {i : Nat} {th : Thread} {ms : List Method} (stage : Stage created tid i th ms)
    (counted : th.count_ ≤ 0) : th.tid_ = tid i := by
  cases stage with
  | new | named => exact absurd counted (show ¬(1 : Int32) ≤ 0 by decide)
  | counted | published => rfl

theorem Stage.of_loop {i : Nat} {th : Thread} {ms : List Method} (stage : Stage created tid i th ms)
    (found : th.loop_.isSome = true) :
    created i = true ∧ th = ⟨true, tid i, 0, some i⟩ ∧ ms = [] := by
  cases stage with
  | new | named | counted => cases found
  | published made => exact ⟨made, rfl, rfl⟩

/-- What the main thread waits for is not undone by the new one. -/
theorem At.mono {i : Nat} {th th' : Thread} {ms : List Method} (main : At created numThreads_ i th ms)
    (made : th'.created = th.created) (count_ : th'.count_ ≤ th.count_)
    (loop_ : th.loop_ = some i → th'.loop_ = some i) : At created numThreads_ i th' ms := by
  cases main with
  | between here => exact .between (made.trans here)
  | created inside ok here => exact .created inside ok (made.trans here)
  | counted inside here zero => exact .counted inside (made.trans here) (Int32.le_trans count_ zero)
  | started inside here => exact .started inside (made.trans here)
  | found inside there => exact .found inside (loop_ there)

namespace Underway

variable {k : Nat} {s s' : Threads (Option (Fin numThreads_)) Method Starting}

/-- A step of a new thread. -/
theorem thread (underway : Underway created tid numThreads_ k s) {i : Fin numThreads_}
    (taken : s.step (call created tid) (some i) = some s') :
    Underway created tid numThreads_ k s' := by
  obtain ⟨m, ms, rest, ready, _, rfl⟩ := Threads.step_inv _ taken
  obtain ⟨th, body, stage, made, count_, loop_⟩ :=
    stage_step (rest ▸ underway.stage i) ready
  have data : (s.done (call created tid) (some i) m ms).data = s.data.setThread i fun _ => th := body
  have same (j : Nat) (other : j ≠ i) :
      (s.data.setThread i fun _ => th).threads_ j = s.data.threads_ j := update_of_ne other _ _
  have here : (s.data.setThread i fun _ => th).threads_ i = th := update_self _ _ _
  have created_ (j : Nat) :
      ((s.data.setThread i fun _ => th).threads_ j).created = (s.data.threads_ j).created := by
    by_cases own : j = i
    · rw [own, here, made]
    · rw [same j own]
  constructor
  case le => exact underway.le
  case stage =>
    intro j
    rw [data]
    by_cases own : j = i
    · subst own
      rw [here]
      rw [Threads.done_self]
      exact stage
    · have apart : (j : Nat) ≠ i := fun eq => own (Fin.ext eq)
      rw [same j apart, Threads.done_of_ne _ _ fun eq => own (Option.some.inj eq)]
      exact underway.stage j
  case main =>
    rw [Threads.done_of_ne _ _ (by simp), data]
    have main := underway.main
    by_cases own : k = i
    · rw [own, here]
      exact (own ▸ main).mono made count_ loop_
    · rw [same k own]
      exact main
  case loops_ => exact (congrArg Starting.loops_ data).trans underway.loops_
  case published =>
    intro j less
    rw [data]
    by_cases own : j = i
    · -- It has no call left to make.
      have found := (underway.published j less).2
      have finished := (underway.stage i).of_loop (own ▸ congrArg (·.loop_.isSome) found)
      rw [rest] at finished
      cases finished.2.2
    · rw [same j own]
      exact underway.published j less
  case unborn =>
    intro j more
    rw [data, created_]
    exact underway.unborn j more
  case aborted => exact (congrArg Starting.aborted data).trans underway.aborted

/-- The main thread goes on with the same thread, and changes no other. -/
theorem goOn (underway : Underway created tid numThreads_ k s) {m : Method} {ms : List Method}
    {data : Starting} (body : (call created tid m).body s.data = data)
    (threads_ : data.threads_ = s.data.threads_) (loops_ : data.loops_ = s.data.loops_)
    (aborted : data.aborted = false) (main : At created numThreads_ k (s.data.threads_ k) ms) :
    Underway created tid numThreads_ k (s.done (call created tid) none m ms) := by
  have done : (s.done (call created tid) none m ms).data = data := body
  constructor
  case le => exact underway.le
  case stage =>
    intro i
    rw [done, threads_, Threads.done_of_ne _ _ (by simp)]
    exact underway.stage i
  case main =>
    rw [done, threads_, Threads.done_self]
    exact main
  case loops_ => rw [done, loops_, underway.loops_]
  case published =>
    rw [done, threads_]
    exact underway.published
  case unborn =>
    rw [done, threads_]
    exact underway.unborn
  case aborted => rw [done, aborted]

/-- `pthread_create` -/
theorem creates (underway : Underway created tid numThreads_ k s)
    (unborn : (s.data.threads_ k).created = false) {ms : List Method}
    (main : ∀ th, th.created = created k → At created numThreads_ k th ms) :
    Underway created tid numThreads_ k (s.done (call created tid) none (.create k) ms) := by
  have data : (s.done (call created tid) none (.create k) ms).data =
      s.data.setThread k ({ · with created := created k }) := rfl
  have here : ((s.data.setThread k ({ · with created := created k })).threads_ k) =
      { s.data.threads_ k with created := created k } := update_self _ _ _
  have same (j : Nat) (other : j ≠ k) :
      (s.data.setThread k ({ · with created := created k })).threads_ j = s.data.threads_ j :=
    update_of_ne other _ _
  constructor
  case le => exact underway.le
  case stage =>
    intro i
    rw [data, Threads.done_of_ne _ _ (by simp)]
    have stage := underway.stage i
    by_cases own : (i : Nat) = k
    · rw [own, here]
      rw [own] at stage
      -- A thread that is not there has made no call.
      generalize s.data.threads_ k = th at stage unborn ⊢
      generalize s.rest (some i) = rest at stage ⊢
      cases stage with
      | new => exact .new (created k) id
      | _ => cases unborn
    · rw [same i own]
      exact stage
  case main =>
    rw [data, Threads.done_self, here]
    exact main _ rfl
  case loops_ => exact underway.loops_
  case published =>
    intro j less
    rw [data, same j (Nat.ne_of_lt less)]
    exact underway.published j less
  case unborn =>
    intro j more
    rw [data, same j (Nat.ne_of_gt more)]
    exact underway.unborn j more
  case aborted => exact underway.aborted

/-- `push_back` of the loop that `startLoop` returns. -/
theorem pushes (underway : Underway created tid numThreads_ k s) (inside : k < numThreads_)
    (found : (s.data.threads_ k).loop_ = some k) :
    Underway created tid numThreads_ (k + 1)
      (s.done (call created tid) none (.pushBack k) (startFrom created numThreads_ (k + 1))) where
  le := inside
  stage i := by
    rw [Threads.done_of_ne _ _ (by simp)]
    exact underway.stage i
  main := by
    rw [Threads.done_self]
    exact .between (underway.unborn (k + 1) (Nat.lt_succ_self k))
  loops_ := by
    change s.data.loops_ ++ [(s.data.threads_ k).loop_] = _
    rw [underway.loops_, found, List.range_succ, List.map_append]
    rfl
  published i less := by
    rcases Nat.lt_succ_iff_lt_or_eq.mp less with before | rfl
    · exact underway.published i before
    · have stage := (underway.stage ⟨i, inside⟩).of_loop (congrArg Option.isSome found)
      exact ⟨stage.1, stage.2.1⟩
  unborn i more := underway.unborn i (Nat.lt_of_succ_lt more)
  aborted := underway.aborted

/-- A step of the main thread. -/
theorem mainThread (positive : ∀ i, 0 < tid i) (underway : Underway created tid numThreads_ k s)
    (taken : s.step (call created tid) none = some s') :
    ∃ k', Underway created tid numThreads_ k' s' := by
  obtain ⟨m, ms, rest, ready, _, rfl⟩ := Threads.step_inv _ taken
  have main := underway.main
  rw [rest] at main
  generalize calls : m :: ms = list at main
  cases main with
  | between here =>
    by_cases inside : k < numThreads_
    · rw [startFrom_lt inside] at calls
      cases calls
      refine ⟨k, underway.creates here fun th made => ?_⟩
      cases ok : created k with
      | true => exact .created inside ok (made.trans ok)
      | false => exact .started inside made
    · rw [startFrom_ge (Nat.le_of_not_lt inside)] at calls
      cases calls
  | created inside ok here =>
    cases calls
    have zero : (s.data.threads_ k).count_ ≤ 0 := by
      simpa [call, latchCall, Call.within, CountDownLatch.call] using ready
    have body : (call created tid (.wait k)).body s.data = s.data := by
      simp [call, latchCall, Call.within, CountDownLatch.call, Starting.setThread]
    exact ⟨k, underway.goOn body rfl rfl underway.aborted (.counted inside (here.trans ok.symm) zero)⟩
  | counted inside here zero =>
    cases calls
    have named := (underway.stage ⟨k, inside⟩).tid_ zero
    refine ⟨k, underway.goOn rfl rfl rfl ?_ (.started inside here)⟩
    have identified : ¬(s.data.threads_ k).tid_ ≤ 0 := by
      rw [named]
      exact Int.not_le.mpr (positive k)
    change (s.data.aborted || decide ((s.data.threads_ k).tid_ ≤ 0)) = false
    simp [underway.aborted, identified]
  | started inside here =>
    cases calls
    have found : (s.data.threads_ k).loop_.isSome = true := ready
    have stage := (underway.stage ⟨k, inside⟩).of_loop found
    exact ⟨k, underway.goOn rfl rfl rfl underway.aborted (.found inside (congrArg (·.loop_) stage.2.1))⟩
  | found inside there =>
    cases calls
    exact ⟨k + 1, underway.pushes inside there⟩

theorem step (positive : ∀ i, 0 < tid i) (underway : Underway created tid numThreads_ k s)
    {t : Option (Fin numThreads_)} (taken : s.step (call created tid) t = some s') :
    ∃ k', Underway created tid numThreads_ k' s' := by
  cases t with
  | none => exact underway.mainThread positive taken
  | some i => exact ⟨k, underway.thread taken⟩

/-- Somebody can go on, unless the main thread is through or waits for a thread that could not be
created. -/
theorem goes_on (underway : Underway created tid numThreads_ k s)
    (blocked : ∀ t, s.step (call created tid) t = none) :
    (k = numThreads_ ∧ s.rest none = []) ∨
      (k < numThreads_ ∧ created k = false ∧ (s.rest none).head? = some (.waitLoop k)) := by
  have unready {t : Option (Fin numThreads_)} {m : Method} {ms : List Method}
      (rest : s.rest t = m :: ms) : (call created tid m).ready s.data = false := by
    have none_ := blocked t
    unfold Threads.step at none_
    rw [rest] at none_
    simpa using none_
  -- A thread that was created has published its loop.
  have through (inside : k < numThreads_) (here : (s.data.threads_ k).created = true) :
      s.data.threads_ k = ⟨true, tid k, 0, some k⟩ := by
    have stage := underway.stage ⟨k, inside⟩
    have next := @unready (some ⟨k, inside⟩)
    generalize s.rest (some ⟨k, inside⟩) = ms at stage next
    generalize th_ : s.data.threads_ k = th at stage here ⊢
    cases stage with
    | new =>
      have waits : (s.data.threads_ k).created = false := next rfl
      rw [th_, here] at waits
      cases waits
    | named | counted => cases next rfl
    | published => rfl
  have main := underway.main
  generalize rest : s.rest none = ms at main ⊢
  cases main with
  | between here =>
    by_cases inside : k < numThreads_
    · rw [startFrom_lt inside] at rest
      cases unready rest
    · have all : k = numThreads_ := Nat.le_antisymm underway.le (Nat.le_of_not_lt inside)
      exact .inl ⟨all, startFrom_ge (Nat.le_of_not_lt inside)⟩
  | created inside ok here =>
    have waits := unready rest
    rw [call, latchCall, Call.within] at waits
    simp [through inside here, CountDownLatch.call] at waits
  | counted inside here zero => cases unready rest
  | started inside here =>
    have waits := unready rest
    cases ok : created k with
    | true =>
      rw [call] at waits
      simp [through inside (here.trans ok)] at waits
    | false => exact .inr ⟨inside, rfl, rfl⟩
  | found inside there => cases unready rest

end Underway

theorem call_cond {m : Method} {c : Cond} (cond : (call created tid m).cond = some c) :
    (∃ i, m = .wait i ∧ c = .latch_ i) ∨ (∃ i, m = .waitLoop i ∧ c = .cond_ i) := by
  cases m with
  | wait i =>
    cases cond
    exact .inl ⟨i, rfl, rfl⟩
  | waitLoop i =>
    cases cond
    exact .inr ⟨i, rfl, rfl⟩
  | _ => cases cond

/-- The new threads wait for nothing. -/
theorem programs_cond {t : Option (Fin numThreads_)} {m : Method}
    (member : m ∈ programs created numThreads_ t) {c : Cond}
    (cond : (call created tid m).cond = some c) : t = none := by
  cases t with
  | none => rfl
  | some i =>
    simp only [programs, startThread, List.mem_cons, List.not_mem_nil, or_false] at member
    rcases member with rfl | rfl | rfl
    · cases cond
    · cases cond
    · cases cond

theorem wait_ready (i : Nat) (d : Starting) :
    (call created tid (.wait i)).ready d = true ↔ (d.threads_ i).count_ ≤ 0 := by
  simp [call, latchCall, Call.within, CountDownLatch.call]

/-- Only the thread itself counts down its latch. -/
theorem body_count (m : Method) (d : Starting) (i : Nat) :
    (((call created tid m).body d).threads_ i).count_ = (d.threads_ i).count_ ∨
      m = .countDown i ∧ (((call created tid m).body d).threads_ i).count_ =
        (d.threads_ i).count_ - 1 := by
  cases m with
  | create j | setTid j | publish j =>
    left
    by_cases own : i = j
    · simp [call, Starting.setThread, own]
    · simp [call, Starting.setThread, own]
  | wait j =>
    left
    by_cases own : i = j
    · simp [call, latchCall, Call.within, CountDownLatch.call, Starting.setThread, own]
    · simp [call, latchCall, Call.within, Starting.setThread, own]
  | countDown j =>
    by_cases own : i = j
    · subst own
      simp [call, latchCall, Call.within, CountDownLatch.call, Starting.setThread]
    · simp [call, latchCall, Call.within, Starting.setThread, own]
  | _ => exact .inl rfl

theorem body_loop (m : Method) (d : Starting) (i : Nat) :
    (((call created tid m).body d).threads_ i).loop_ = (d.threads_ i).loop_ ∨ m = .publish i := by
  cases m with
  | create j | setTid j | publish j | wait j | countDown j =>
    by_cases own : i = j
    · simp [call, latchCall, Call.within, Starting.setThread, own]
    · simp [call, latchCall, Call.within, Starting.setThread, own]
  | _ => exact .inl rfl

theorem heeded : Sleepers.Heeded (call created tid) (programs created numThreads_) where
  heeds t a _ u b _ c d cond unready ready := by
    rcases call_cond cond with ⟨i, rfl, rfl⟩ | ⟨i, rfl, rfl⟩
    · left
      have before : ¬(d.threads_ i).count_ ≤ 0 := fun zero => by
        simp [(wait_ready i d).mpr zero] at unready
      have after := (wait_ready i _).mp ready
      rcases body_count b d i with same | ⟨rfl, less⟩
      · exact absurd (same ▸ after) before
      · -- The last `countDown` notifies all.
        have zero : (((call created tid (.countDown i)).body d).threads_ i).count_ = 0 := by
          rw [less] at after ⊢
          exact CountDownLatch.countDown_zero before after
        simp only [call, latchCall, Call.within, CountDownLatch.call] at zero ⊢
        simp [zero, Notice.map]
    · right
      rcases body_loop b d i with same | rfl
      · have still : ((((call created tid b).body d).threads_ i).loop_).isSome = true := ready
        rw [same] at still
        exact absurd still (by simpa [call] using unready)
      · rfl
  alone u b _ c d one t a member cond t' a' member' cond' :=
    (programs_cond member cond).trans (programs_cond member' cond').symm

theorem programs_length (created : Nat → Bool) (numThreads_ : Nat) :
    ∑ t, (programs created numThreads_ t).length ≤ 8 * numThreads_ := by
  have main (i : Nat) : (startFrom created numThreads_ i).length ≤ 5 * (numThreads_ - i) := by
    unfold startFrom
    generalize numThreads_ - i = count
    induction count generalizing i with
    | zero => simp
    | succ count ih =>
      have rest := ih (i + 1)
      rw [List.range'_succ, List.flatMap_cons, List.length_append]
      have one : (startLoop created i).length ≤ 5 := by
        unfold startLoop
        split <;> simp
      omega
  rw [Fintype.sum_option]
  have first := main 0
  have others : ∑ i : Fin numThreads_, (programs created numThreads_ (some i)).length =
      3 * numThreads_ := by
    simp [programs, startThread, Nat.mul_comm]
  have whole : (programs created numThreads_ none).length ≤ 5 * numThreads_ := main 0
  omega

/-- `start` in every interleaving, with threads that are also woken for no reason: no assertion
fails; when it is through it has the loops of `numThreads_` threads, all different, and it gets
there in a bounded number of calls, unless a thread could not be created, for which it waits. -/
theorem pool_starts (positive : ∀ i, 0 < tid i) {ls : List (Sleepers.Label (Option (Fin numThreads_)))}
    {s : Sleepers (Option (Fin numThreads_)) Method Starting}
    (run : (Sleepers.sleeping (call created tid) (programs created numThreads_) fresh).exec
      ⟨⟨fresh, programs created numThreads_⟩, fun _ => false⟩ ls = some s) :
    s.data.aborted = false ∧
      (∃ k ≤ numThreads_, s.data.loops_ = (List.range k).map some ∧ ∀ i < k, created i = true) ∧
      (0 < numThreads_ → s.rest none = [] → ∃ pool : EventLoopThreadPool,
        pool.loops_.map some = s.data.loops_ ∧ pool.numThreads_ = numThreads_ ∧ pool.next_ = 0 ∧
          pool.loops_.Nodup) ∧
      ((Sleepers.sleeping (call created tid) (programs created numThreads_) fresh).output
        (Sleepers.made (call created tid)) ⟨⟨fresh, programs created numThreads_⟩, fun _ => false⟩
          ls).length ≤ 8 * numThreads_ ∧
      ((∃ t m ms heard s', s.rest t = m :: ms ∧ s.step (call created tid) (.run t heard) = some s' ∧
          s'.rest t = ms) ∨
        s.rest none = [] ∨
        ∃ k < numThreads_, created k = false ∧ (s.rest none).head? = some (.waitLoop k)) := by
  obtain ⟨_, _, start, ⟨ts, led, shown⟩, rfl⟩ := (Sleepers.sleeping_refines (call created tid)
    (programs created numThreads_) fresh).run rfl run
  cases start
  obtain ⟨k, underway⟩ : ∃ k, Underway created tid numThreads_ k s.toThreads :=
    Machine.invariant_exec (M := Threads.waiting (call created tid) (programs created numThreads_) fresh)
      (I := fun r => ∃ k, Underway created tid numThreads_ k r)
      (fun _ _ _ ⟨_, underway⟩ taken => underway.step positive taken)
      ⟨0, underway_fresh created tid numThreads_⟩ led
  have attentive := Machine.invariant_exec
    (M := Sleepers.sleeping (call created tid) (programs created numThreads_) fresh)
    (fun _ _ _ attentive taken => Sleepers.Attentive.step attentive heeded taken)
    (Sleepers.attentive_init _ fresh) run
  refine ⟨underway.aborted, ⟨k, underway.le, underway.loops_, fun i less => (underway.published i less).1⟩,
    fun some_ through => ?_, ?_, ?_⟩
  · have all : k = numThreads_ := by
      have main := underway.main
      rw [through] at main
      generalize none_ : ([] : List Method) = ms at main
      cases main with
      | between here =>
        by_contra more
        rw [startFrom_lt (Nat.lt_of_le_of_ne underway.le more)] at none_
        cases none_
      | _ => cases none_
    refine ⟨⟨List.range numThreads_, numThreads_, 0, List.length_range, some_⟩, ?_, rfl, rfl,
      List.nodup_range⟩
    rw [underway.loops_, all]
  · have counted := Threads.made_length _ led
    rw [shown] at counted
    have programmed := programs_length created numThreads_
    simp only at counted
    omega
  · by_cases blocked : ∀ t, s.toThreads.step (call created tid) t = none
    · right
      rcases underway.goes_on blocked with ⟨_, through⟩ | ⟨inside, absent, waits⟩
      · exact .inl through
      · exact .inr ⟨k, inside, absent, waits⟩
    · left
      push Not at blocked
      obtain ⟨t, able⟩ := blocked
      obtain ⟨r, makes⟩ := Option.ne_none_iff_exists'.mp able
      obtain ⟨_, heard, s', taken, same⟩ := attentive.ready makes
      obtain ⟨m, ms, rest, _, _, rfl⟩ := Threads.step_inv _ makes
      refine ⟨t, m, ms, heard, s', rest, taken, ?_⟩
      rw [same, Threads.done_self]

/-- Two threads are started; the main thread sleeps twice for the first and is woken early once. -/
def twoStarts : List (Sleepers.Label (Option (Fin 2))) :=
  [.run none none, .run none none, .run (some 0) none, .wake none, .run none none,
    .run (some 0) none, .run none none, .run none none, .run none none,
    .run (some 0) (some none), .run none none, .run none none, .run none none,
    .run (some 1) none, .run (some 1) none, .run none none, .run (some 1) none,
    .run none none, .run none none, .run none none]

theorem pool_starts_twoStarts : ∃ s, (Sleepers.sleeping (call (fun _ => true) fun i => i + 100)
      (programs (fun _ => true) 2) fresh).exec
        ⟨⟨fresh, programs (fun _ => true) 2⟩, fun _ => false⟩ twoStarts = some s ∧
    s.rest none = [] ∧ s.data.aborted = false ∧
    ∃ pool : EventLoopThreadPool, pool.loops_.map some = s.data.loops_ ∧ pool.numThreads_ = 2 ∧
      pool.next_ = 0 ∧ pool.loops_.Nodup := by
  obtain ⟨s, run, through⟩ := Machine.exec_any
    (M := Sleepers.sleeping (call (fun _ => true) fun i => i + 100) (programs (fun _ => true) 2) fresh)
    (fun s => s.rest none = []) ⟨⟨fresh, programs (fun _ => true) 2⟩, fun _ => false⟩ twoStarts
    (by decide)
  have positive (i : Nat) : (0 : Int) < i + 100 := by omega
  obtain ⟨kept, _, loops, _⟩ := pool_starts positive run
  exact ⟨s, run, through, kept, loops (by decide) through⟩

end EventLoopThreadPool

end LightAgent

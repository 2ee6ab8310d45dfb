import LightAgent.Library.Monitor

/-!
# CountDownLatch

Any number of threads call `wait` and `countDown`, each as often as it likes. Whoever waits is
held up until `countDown` has been called `count` times, and no longer.
-/
namespace LightAgent

open Library Function

namespace CountDownLatch

inductive Method where
  | wait | countDown
  deriving DecidableEq, Repr

/-- The members on `count_`, an `int`; it falls below the least one in no defined run. -/
def call : Method → Call Int32 Unit
  | .wait => ⟨fun count_ => !decide (count_ > 0), some (), id, fun _ => .none⟩
  | .countDown => ⟨fun _ => true, none, (· - 1), fun count_ => if count_ = 0 then .all () else .none⟩

/-- The count that lets the waiting threads through is reached at zero, whoever counts down. -/
theorem countDown_zero {count_ : Int32} (before : ¬count_ ≤ 0) (after : count_ - 1 ≤ 0) :
    count_ - 1 = 0 := by
  rw [← Int32.toInt_inj]
  rw [Int32.le_iff_toInt_le] at before after
  have high := count_.toInt_lt
  rw [Int32.toInt_sub, Int.bmod_def] at after ⊢
  change ¬count_.toInt ≤ 0 at before
  change (if (count_.toInt - 1) % (2 ^ 32 : Nat) < ((2 ^ 32 : Nat) + 1) / 2 then _ else _) ≤ (0 : Int)
    at after
  change (if (count_.toInt - 1) % (2 ^ 32 : Nat) < ((2 ^ 32 : Nat) + 1) / 2 then _ else _) = (0 : Int)
  split at after
  next low => rw [if_pos low]; omega
  next => omega

variable {T : Type*}

def countDowns (calls : List (T × Method)) : Nat := calls.countP (·.2 = .countDown)

variable [DecidableEq T]

/-- The count is what is left as long as that is an `int`, and every `wait` found nothing left. -/
structure Counts (count : Int32) (s : Threads T Method Int32) (calls : List (T × Method)) :
    Prop where
  count_ : countDowns calls ≤ count.toInt + 2 ^ 31 → s.data.toInt = count.toInt - countDowns calls
  waits : ∀ before t after, calls = before ++ (t, .wait) :: after →
    count.toInt ≤ countDowns before

theorem Counts.step {count : Int32} {s s' : Threads T Method Int32} {calls : List (T × Method)}
    {t : T} (counts : Counts count s calls) (taken : s.step call t = some s') :
    Counts count s' (calls ++ s.made t) := by
  obtain ⟨a, as, rest, ready, made, rfl⟩ := Threads.step_inv call taken
  rw [made]
  constructor
  · intro defined
    cases a with
    | wait =>
      have same : countDowns (calls ++ [(t, Method.wait)]) = countDowns calls := by
        simp [countDowns]
      rw [same] at defined ⊢
      exact counts.count_ defined
    | countDown =>
      have more : countDowns (calls ++ [(t, Method.countDown)]) = countDowns calls + 1 := by
        simp [countDowns]
      rw [more] at defined ⊢
      have before := counts.count_ (by omega)
      have high := s.data.toInt_lt
      -- What is left stays in the range of an `int`.
      change (s.data - 1).toInt = _
      rw [Int32.toInt_sub]
      change (s.data.toInt - 1).bmod (2 ^ 32) = _
      rw [Int.bmod_def]
      split <;> omega
  · intro before u after split
    rcases List.eq_nil_or_concat after with rfl | ⟨front, last, rfl⟩
    · -- The call that is made now is the `wait` itself.
      obtain ⟨rfl, same⟩ := List.append_inj' split rfl
      cases same
      have zero : s.data ≤ 0 := by simpa [call] using ready
      have zero' : s.data.toInt ≤ 0 := Int32.le_iff_toInt_le.mp zero
      by_contra fewer
      have low := count.le_toInt
      have left_ := counts.count_ (by omega)
      omega
    · have earlier : calls = before ++ (u, .wait) :: front := by
        have both : calls ++ [(t, a)] = (before ++ (u, .wait) :: front) ++ [last] := by
          rw [split]
          simp
        exact (List.append_inj' both rfl).1
      exact counts.waits before u front earlier

omit [DecidableEq T] in
theorem heeded [Fintype T] (programs : T → List Method) : Sleepers.Heeded call programs where
  heeds t a _ u b _ c d cond unready ready := by
    cases a with
    | countDown => simp [call] at cond
    | wait =>
      left
      cases b with
      | wait => simp [call] at unready ready; exact absurd ready (Int32.not_le.mpr unready)
      | countDown =>
        have last : d - 1 = 0 := by
          simp [call] at unready ready
          exact countDown_zero (Int32.not_le.mpr unready) ready
        simp [call, last]
  alone u b _ c d one := by
    cases b with
    | wait => simp [call] at one
    | countDown =>
      simp only [call] at one
      split at one <;> cases one

/-- The calls of a run from the start, in their order. -/
def calls [Fintype T] (programs : T → List Method) (count : Int32) (ls : List (Sleepers.Label T)) :
    List (T × Method) :=
  (Sleepers.sleeping call programs count).output (Sleepers.made call)
    ⟨⟨count, programs⟩, fun _ => false⟩ ls

/-- The latch in every interleaving that counts down to no less than an `int` can hold, with threads
that are also woken for no reason: `wait` returns only behind `count` calls of `countDown`; and a
thread is held up only in a `wait`, and only as long as fewer of them have been made. -/
theorem latch_opens [Fintype T] {programs : T → List Method} {count : Int32}
    {ls : List (Sleepers.Label T)} {s : Sleepers T Method Int32}
    (run : (Sleepers.sleeping call programs count).exec ⟨⟨count, programs⟩, fun _ => false⟩ ls =
      some s) (defined : countDowns (calls programs count ls) ≤ count.toInt + 2 ^ 31) :
    (∀ before t after, calls programs count ls = before ++ (t, .wait) :: after →
        count.toInt ≤ countDowns before) ∧
      ∀ t a as, s.rest t = a :: as →
        (a = .wait → count.toInt ≤ countDowns (calls programs count ls)) →
        s.asleep t = false ∧ ∃ heard s', s.step call (.run t heard) = some s' ∧ s'.rest t = as := by
  obtain ⟨_, _, start, ⟨ts, led, shown⟩, rfl⟩ :=
    (Sleepers.sleeping_refines call programs count).run rfl run
  cases start
  have start : Counts count ⟨count, programs⟩ ([] : List (T × Method)) :=
    ⟨by simp [countDowns], by simp⟩
  have counts : Counts count s.toThreads (calls programs count ls) := by
    have all := Machine.invariant_output (M := Threads.waiting call programs count)
      (fun _ _ _ _ counts taken => Counts.step counts taken) start led
    rwa [shown] at all
  have attentive := Machine.invariant_exec (M := Sleepers.sleeping call programs count)
    (fun _ _ _ attentive taken => Sleepers.Attentive.step attentive (heeded programs) taken)
    (Sleepers.attentive_init programs count) run
  refine ⟨counts.waits, fun t a as rest enough => ?_⟩
  have ready : (call a).ready s.data = true := by
    cases a with
    | countDown => rfl
    | wait =>
      have zero := enough rfl
      have left_ := counts.count_ defined
      have none_ : s.data ≤ 0 := Int32.le_iff_toInt_le.mpr (show s.data.toInt ≤ 0 by omega)
      simpa [call] using none_
  have makes : s.toThreads.step call t = some (s.toThreads.done call t a as) := by
    simp [Threads.step, rest, ready]
  obtain ⟨awake, heard, s', taken, same⟩ := attentive.ready makes
  refine ⟨awake, heard, s', taken, ?_⟩
  rw [same]
  exact update_self _ _ _

/-- Two threads wait, one of them once it has counted down itself. -/
def meeting (t : Fin 3) : List Method :=
  if t = 0 then [.wait] else if t = 1 then [.countDown, .wait] else [.countDown]

/-- The notice of the last `countDown` reaches the thread that sleeps. -/
def met : List (Sleepers.Label (Fin 3)) :=
  [.run 0 none, .run 1 none, .wake 0, .run 0 none, .run 2 none]

theorem latch_opens_meeting : ∃ s,
    (Sleepers.sleeping call meeting 2).exec ⟨⟨2, meeting⟩, fun _ => false⟩ met = some s ∧
    s.asleep 0 = false ∧ ∃ heard s', s.step call (.run 0 heard) = some s' ∧ s'.rest 0 = [] := by
  obtain ⟨s, run, rest, counted⟩ := Machine.exec_any (M := Sleepers.sleeping call meeting 2)
    (fun s => s.rest 0 = [.wait] ∧ countDowns (calls meeting 2 met) = 2)
    ⟨⟨2, meeting⟩, fun _ => false⟩ met (by decide)
  have count : (2 : Int32).toInt = 2 := by decide
  refine ⟨s, run, (latch_opens run ?_).2 0 .wait [] rest fun _ => ?_⟩
  · rw [counted, count]
    decide
  · rw [counted, count]
    decide

end CountDownLatch

end LightAgent

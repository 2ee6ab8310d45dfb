import LightAgent.Base.AsyncLogging

/-!
# The buffers of the logging thread

The assertions of `threadFunc`, whatever the front ends append. Which buffer is where does not
depend on the record of the lines, so a state is sound here that is sound with some record.
-/
namespace LightAgent

open Library Function

namespace AsyncLogging

/-- A step of `step`, or an `append` of a line of any length. -/
def stepAny (s : AsyncLogging) : Label ⊕ Bytes → Option AsyncLogging
  | .inl l => s.step l
  | .inr line => s.append line

def machineAny : Machine AsyncLogging (Label ⊕ Bytes) := ⟨(· = new), stepAny⟩

/-- A buffer that is there, with nothing in it. -/
def Ready (s : AsyncLogging) (newBuffer : Option BufferPtr) : Prop :=
  ∃ buffer, newBuffer = some buffer ∧ (s.heap buffer).length = 0

/-- What `threadFunc` asserts where it stands. -/
def Asserts (s : AsyncLogging) : Prop :=
  match s.point with
  | .locking => s.Ready s.newBuffer1 ∧ s.Ready s.newBuffer2 ∧ s.buffersToWrite = []
  | .truncating => s.buffersToWrite ≠ []
  | .refilling1 => s.newBuffer1 = none → s.buffersToWrite ≠ []
  | .refilling2 => s.newBuffer2 = none → s.buffersToWrite ≠ []
  | _ => True

/-! ### The record -/

/-- What a state says of the lines and not of the buffers. -/
structure Record where
  output : Bytes
  appended : List Bytes
  fates : List Fate
  erased : List (List Bytes)

def withRecord (s : AsyncLogging) (r : Record) : AsyncLogging :=
  { s with
    output := r.output
    appended := r.appended
    fates := r.fates
    erased := r.erased }

/-- Sound but for the lines. -/
def Stocked (s : AsyncLogging) : Prop := ∃ r, (s.withRecord r).Sound

theorem ite_withRecord {c : Prop} [Decidable c] {r : Record} {s s' t t' : Option AsyncLogging}
    (first : s = s'.map (·.withRecord r)) (second : t = t'.map (·.withRecord r)) :
    (if c then s else t) = (if c then s' else t').map (·.withRecord r) := by
  split
  · exact first
  · exact second

theorem append_withRecord (s : AsyncLogging) (r : Record) (line : Bytes) :
    ∃ r', (s.withRecord r).append line = (s.append line).map (·.withRecord r') := by
  refine ⟨{ r with appended := r.appended ++ [line] }, ?_⟩
  obtain ⟨_, _, _, current, next⟩ := s
  cases current with
  | none => rfl
  | some current =>
    refine ite_withRecord rfl ?_
    cases next with
    | none => rfl
    | some next => rfl

theorem swap_withRecord (s : AsyncLogging) (r : Record) :
    (s.withRecord r).swap = s.swap.map (·.withRecord r) := by
  unfold swap
  rw [Option.map_map]
  rfl

theorem recycle_withRecord (s : AsyncLogging) (r : Record) :
    (s.withRecord r).recycle = s.recycle.map fun (buffer, s) => (buffer, s.withRecord r) := by
  unfold recycle
  rw [Option.map_map]
  rfl

/-- A step does the same to the buffers whatever the record is. -/
theorem step_withRecord (s : AsyncLogging) (r : Record) (l : Label) :
    ∃ r', (s.withRecord r).step l = (s.step l).map (·.withRecord r') := by
  cases l with
  | append line => exact append_withRecord s r line.data
  | stop => exact ⟨r, rfl⟩
  | check => exact ⟨r, ite_withRecord rfl rfl⟩
  | lock => exact ⟨r, ite_withRecord (ite_withRecord rfl (swap_withRecord s r)) rfl⟩
  | wake => exact ⟨r, ite_withRecord (swap_withRecord s r) rfl⟩
  | truncate =>
    by_cases large : s.buffersToWrite.length > 25
    · refine ⟨{ r with erased := (s.buffersToWrite.drop 2).map fun b => (s.heap b).pieces }, ?_⟩
      refine ite_withRecord ?_ rfl
      rw [if_pos large]
      exact if_pos large
    · refine ⟨r, ite_withRecord ?_ rfl⟩
      rw [if_neg large]
      exact if_neg large
  | write =>
    obtain ⟨_, heap, _, _, _, _, _, _, buffersToWrite, point, output, _, fates, erased⟩ := s
    -- The record that is written to is the one that is there.
    cases point with
    | writing i =>
      cases found : buffersToWrite[i]? with
      | some buffer =>
        refine ⟨{ r with
          output := r.output ++ (heap buffer).data
          fates := r.fates ++ [⟨(heap buffer).pieces, true⟩] }, ?_⟩
        simp only [step, withRecord, found, Option.map_some]
      | none =>
        refine ⟨{ r with
          fates := r.fates ++ r.erased.map fun pieces => ⟨pieces, false⟩
          erased := [] }, ?_⟩
        simp only [step, withRecord, found, Option.map_some]
    | _ => exact ⟨r, rfl⟩
  | resize => exact ⟨r, ite_withRecord rfl rfl⟩
  | refill1 =>
    refine ⟨r, ite_withRecord (ite_withRecord ?_ rfl) rfl⟩
    rw [recycle_withRecord, Option.map_map, Option.map_map]
    rfl
  | refill2 =>
    refine ⟨r, ite_withRecord (ite_withRecord ?_ rfl) rfl⟩
    rw [recycle_withRecord, Option.map_map, Option.map_map]
    rfl
  | clear => exact ⟨r, ite_withRecord rfl rfl⟩

/-! ### The steps -/

namespace Stocked

variable {s s' : AsyncLogging}

theorem of_sound (sound : s.Sound) : s.Stocked :=
  ⟨⟨s.output, s.appended, s.fates, s.erased⟩, sound⟩

/-- A record may be put in the place of another. -/
theorem of_withRecord {r : Record} (stocked : (s.withRecord r).Stocked) : s.Stocked := by
  obtain ⟨r', sound⟩ := stocked
  exact ⟨r', sound⟩

/-- A line that is too long for the buffer leaves the buffers as they are. -/
theorem put (sound : s.Sound) {current : BufferPtr} (is : s.currentBuffer_ = some current)
    (line : Bytes) : (s.put current line).Stocked := by
  by_cases fits : (s.heap current).avail > line.length
  · exact of_sound (sound.put is fits)
  · have same : update s.heap current ((s.heap current).append line) = s.heap := by
      rw [FixedBuffer.append, dif_neg fits]
      exact update_eq_self current s.heap
    refine of_withRecord (r := ⟨s.output, s.appended, s.fates, s.erased⟩) (of_sound ?_)
    unfold withRecord AsyncLogging.put
    rw [same]
    exact sound

theorem append_of_sound (sound : s.Sound) {line : Bytes} (taken : s.append line = some s') :
    s'.Stocked := by
  cases append_appends taken with
  | fits is _ => exact put sound is line
  | turn is spare => exact put (sound.turn is spare) rfl line
  | grow is spare => exact put (sound.grow is spare) rfl line

theorem append (stocked : s.Stocked) {line : Bytes} (taken : s.append line = some s') :
    s'.Stocked := by
  obtain ⟨r, sound⟩ := stocked
  obtain ⟨r', same⟩ := append_withRecord s r line
  rw [taken] at same
  exact of_withRecord (append_of_sound sound same)

theorem step (stocked : s.Stocked) {l : Label} (taken : s.step l = some s') : s'.Stocked := by
  obtain ⟨r, sound⟩ := stocked
  obtain ⟨r', same⟩ := step_withRecord s r l
  rw [taken] at same
  exact ⟨r', sound.step same⟩

theorem stepAny (stocked : s.Stocked) {l : Label ⊕ Bytes} (taken : s.stepAny l = some s') :
    s'.Stocked := by
  cases l with
  | inl l => exact stocked.step taken
  | inr line => exact stocked.append taken

end Stocked

theorem Sound.ready {s : AsyncLogging} (sound : s.Sound) {newBuffer : Option BufferPtr}
    (is : newBuffer = s.newBuffer1 ∨ newBuffer = s.newBuffer2) (some_ : newBuffer ≠ none) :
    s.Ready newBuffer := by
  obtain ⟨buffer, eq⟩ := Option.ne_none_iff_exists'.mp some_
  refine ⟨buffer, eq, ?_⟩
  have pieces : (s.heap buffer).pieces = [] := by
    apply sound.spare
    rcases is with is | is
    · simp [← is, eq]
    · simp [← is, eq]
  simp [FixedBuffer.length, FixedBuffer.data, pieces]

theorem Sound.asserts {s : AsyncLogging} (sound : s.Sound) : s.Asserts := by
  have staged := sound.staged
  unfold Asserts
  split
  next point =>
    rw [point] at staged
    exact ⟨sound.ready (.inl rfl) staged.1, sound.ready (.inr rfl) staged.2.1, staged.2.2⟩
  next point =>
    rw [point] at staged
    exact staged.2.1
  next point =>
    rw [point] at staged
    exact fun _ => staged.2.1
  next point =>
    rw [point] at staged
    exact staged.2
  next => trivial

/-- In every interleaving of `append` calls with the logging thread the assertions of
`threadFunc` hold where it comes to them, the first one when it is started, and there is a current
buffer whenever `mutex_` is free. -/
theorem threadFunc_asserts :
    (∀ s, machineAny.init s → s.running_ = true) ∧
      ∀ s, machineAny.Reachable s → s.Asserts ∧ s.currentBuffer_ ≠ none := by
  constructor
  · rintro s rfl
    rfl
  · intro s reached
    have stocked : s.Stocked :=
      Machine.invariant (by rintro s rfl; exact .of_sound sound_new) (fun _ _ _ h => h.stepAny) reached
    obtain ⟨r, sound⟩ := stocked
    exact ⟨sound.asserts, sound.current⟩

/-- A batch of one buffer is written and comes to the first refill. -/
def oneBatch : List (Label ⊕ Bytes) :=
  [.inr [97, 10], .inl .check, .inl .lock, .inr [98, 10], .inl .wake, .inl .truncate, .inl .write,
    .inl .write, .inl .resize]

theorem threadFunc_asserts_oneBatch : ∃ s, machineAny.exec new oneBatch = some s ∧
    (s.point = .refilling1 ∧ s.newBuffer1 = none ∧ s.buffersToWrite = [0]) ∧
    s.Asserts ∧ s.currentBuffer_ ≠ none := by
  obtain ⟨s, run, stands⟩ := Machine.exec_any (M := machineAny)
    (fun s => s.point = .refilling1 ∧ s.newBuffer1 = none ∧ s.buffersToWrite = [0]) new oneBatch
    (by decide)
  have any : machineAny.Along (fun _ _ _ => True) new oneBatch := by decide
  exact ⟨s, run, stands, threadFunc_asserts.2 s (Machine.reachable_exec (.init rfl) any run)⟩

end AsyncLogging

end LightAgent

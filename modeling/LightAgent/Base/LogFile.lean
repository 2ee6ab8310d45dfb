import LightAgent.Base.AsyncLogging

/-!
# LogFile: flushing, and the end of the log

`threadFunc` hands its buffers to a `LogFile`, which flushes where it is told to and after every
`flushEveryN_` buffers. `stop` returns once the logging thread has come to its end.
-/
namespace LightAgent

open Library AsyncLogging

structure LogFile where
  count_ : Nat
  /-- what has been appended -/
  file_ : Bytes
  /-- how much of it has been flushed -/
  flushed : Bytes
  deriving DecidableEq

namespace LogFile

/-- the default of the constructor -/
def flushEveryN_ : Nat := 1024

def flush (file : LogFile) : LogFile := { file with flushed := file.file_ }

/-- `LogFile::append_unlocked` -/
def append (file : LogFile) (logline : Bytes) : LogFile :=
  let file := { file with file_ := file.file_ ++ logline, count_ := file.count_ + 1 }
  if file.count_ ≥ flushEveryN_ then { file with count_ := 0 }.flush else file

theorem append_file_ (file : LogFile) (logline : Bytes) :
    (file.append logline).file_ = file.file_ ++ logline := by
  unfold append
  dsimp only
  split
  · rfl
  · rfl

end LogFile

/-- `AsyncLogging` with the `LogFile` of its thread. -/
structure Logging where
  log : AsyncLogging
  output : LogFile
  /-- the lines that had been appended when `stop` was called -/
  completed : Option (List Bytes)

namespace Logging

/-- What a step of the logging thread does to its `LogFile`. -/
def threadOutput (s : Logging) : Label → LogFile
  | .write =>
    match s.log.point with
    | .writing i =>
      (s.log.buffersToWrite[i]?).elim s.output fun buffer =>
        s.output.append (s.log.heap buffer).data
    | _ => s.output
  -- `output.flush()` at the end of the loop and after it
  | .clear => s.output.flush
  | .check => if s.log.running_ then s.output else s.output.flush
  | _ => s.output

/-- A step of any thread; `stop` is called once. -/
def step (s : Logging) (l : Label) : Option Logging :=
  if l = .stop ∧ s.completed.isSome then none
  else (s.log.step l).map fun log =>
    { log
      output := s.threadOutput l
      completed := if l = .stop then some s.log.appended else s.completed }

def new : Logging := ⟨.new, ⟨0, [], []⟩, none⟩

def machine : Machine Logging Label := ⟨(· = new), step⟩

/-- `stop` has returned from `thread_.join()`. -/
def Returned (s : Logging) : Prop := s.completed.isSome ∧ s.log.point = .exited

/-- All that was appended before `stop` is in the file and flushed. -/
def Delivered (s : Logging) : Prop :=
  ∀ lines ∈ s.completed, lines.flatten <+: s.output.flushed

instance (s : Logging) : Decidable s.Returned := inferInstanceAs (Decidable (_ ∧ _))

instance (s : Logging) : Decidable s.Delivered :=
  inferInstanceAs (Decidable (∀ lines ∈ s.completed, _))

end Logging

namespace AsyncLogging

/-- The logging thread has found `running_` set and has not swapped the buffers yet. -/
def Collecting (s : AsyncLogging) : Prop := s.point = .locking ∨ s.point = .waiting

instance (s : AsyncLogging) : Decidable s.Collecting := inferInstanceAs (Decidable (_ ∨ _))

/-- What waits in the front end. -/
def front (s : AsyncLogging) : Bytes :=
  (s.contents s.buffers_).flatten ++ (s.contents s.currentBuffer_.toList).flatten

/-- What has left it. -/
def handedOn (s : AsyncLogging) : Bytes := s.output ++ (s.contents s.unwritten).flatten

variable {s s' : AsyncLogging}

theorem handedOn_front (sound : s.Sound) (complete : s.Complete) :
    s.handedOn ++ s.front = s.appended.flatten := by
  rw [← sound.conserved complete, handedOn, front, ← List.append_assoc]

/-- Where the thread has nothing to write the file has all that left the front end. -/
theorem handedOn_of_nothing (nothing : s.unwritten = []) : s.handedOn = s.output := by
  rw [handedOn, nothing]
  exact List.append_nil _

theorem Collecting.unwritten (collecting : s.Collecting) : s.unwritten = [] := by
  rcases collecting with point | point
  · exact unwritten_eq_nil point (by simp)
  · exact unwritten_eq_nil point (by simp)

/-! ### What leaves the front end -/

theorem put_handedOn (sound : s.Sound) {current : BufferPtr} (is : s.currentBuffer_ = some current)
    (line : Bytes) : (s.put current line).handedOn = s.handedOn := by
  have later : (s.put current line).contents s.unwritten = s.contents s.unwritten :=
    contents_update (sound.alone is).2.2 _
  change s.output ++ ((s.put current line).contents s.unwritten).flatten = s.handedOn
  rw [later]
  rfl

theorem append_handedOn (sound : s.Sound) {line : Bytes} (taken : s.append line = some s') :
    s'.handedOn = s.handedOn ∧ s'.point = s.point ∧ s'.running_ = s.running_ ∧
      s'.appended = s.appended ++ [line] := by
  cases append_appends taken with
  | fits is fits => exact ⟨put_handedOn sound is line, rfl, rfl, rfl⟩
  -- The full buffer waits in the front end as well.
  | turn is spare => exact ⟨put_handedOn (sound.turn is spare) rfl line, rfl, rfl, rfl⟩
  | grow is spare =>
    refine ⟨(put_handedOn (sound.grow is spare) rfl line).trans ?_, rfl, rfl, rfl⟩
    -- The new buffer is not one that is being written.
    have fresh : s.allocated ∉ s.unwritten := by
      intro member
      have made := sound.made _ (List.mem_append_right _ (s.unwritten_subset member))
      exact Nat.lt_irrefl _ made
    have later := contents_update (s := s) fresh emptyBuffer
    exact congrArg (fun contents => s.output ++ contents.flatten) later

theorem not_collecting {p : Point} (point : s.point = p)
    (other : p ≠ .locking ∧ p ≠ .waiting) : ¬s.Collecting := by
  subst point
  rintro (locking | waiting)
  · exact other.1 locking
  · exact other.2 waiting

/-- The points at which there is nothing to lock and nothing to write. -/
def Idle (p : Point) : Prop :=
  p ∈ [.deciding, .resizing, .refilling1, .refilling2, .clearing, .exited]

instance (p : Point) : Decidable (Idle p) := inferInstanceAs (Decidable (_ ∈ _))

theorem Idle.not_collecting {p : Point} (idle : Idle p) (point : s.point = p) : ¬s.Collecting := by
  apply AsyncLogging.not_collecting point
  constructor
  · rintro rfl
    revert idle
    decide
  · rintro rfl
    revert idle
    decide

theorem Idle.handedOn {p : Point} (idle : Idle p) (point : s.point = p) : s.handedOn = s.output := by
  refine handedOn_of_nothing (unwritten_eq_nil point ⟨?_, ?_⟩)
  · rintro rfl
    simp [Idle] at idle
  · rintro i rfl
    simp [Idle] at idle

/-- The swap takes all there is. -/
theorem swap_handedOn (sound : s.Sound) (complete : s.Complete) (collecting : s.Collecting)
    (taken : s.swap = some s') : s'.handedOn = s.appended.flatten := by
  obtain ⟨current, is, rfl⟩ := Option.map_eq_some_iff.mp taken
  rw [← handedOn_front sound complete, handedOn_of_nothing collecting.unwritten]
  change s.output ++ (s.contents (s.buffers_ ++ [current])).flatten = s.output ++ s.front
  rw [contents_append, List.flatten_append, front, is]
  rfl

/-- What a step may do. Bytes leave the front end only where the thread swaps the buffers, and
that it does only where it has found `running_` set. -/
structure Advance (s s' : AsyncLogging) : Prop where
  running_ : s.running_ = false → s'.running_ = false
  appended : s.appended <+: s'.appended
  point : s.running_ = false → s'.Collecting → s.Collecting
  handedOn : s'.handedOn = s.handedOn ∧ (s.Collecting → s'.Collecting) ∨
    s.Collecting ∧ s'.handedOn = s.appended.flatten

namespace Advance

/-- A step of the thread that has nothing to do with the front end. -/
theorem work (before : ¬s.Collecting) (after : ¬s'.Collecting) (handedOn : s'.handedOn = s.handedOn)
    (running_ : s'.running_ = s.running_) (appended : s'.appended = s.appended) :
    Advance s s' where
  running_ stopped := running_.trans stopped
  appended := appended ▸ List.prefix_refl _
  point _ collecting := absurd collecting after
  handedOn := .inl ⟨handedOn, fun collecting => absurd collecting before⟩

/-- The same where there is nothing to write either. -/
theorem idle {p q : Point} (point : s.point = p) (before : Idle p) (point' : s'.point = q)
    (after : Idle q) (running_ : s'.running_ = s.running_) (appended : s'.appended = s.appended)
    (output : s'.output = s.output) : Advance s s' := by
  refine work (before.not_collecting point) (after.not_collecting point') ?_ running_ appended
  rw [before.handedOn point, after.handedOn point', output]

theorem swap (sound : s.Sound) (complete : s.Complete) (collecting : s.Collecting)
    (taken : s.swap = some s') : Advance s s' := by
  have all := swap_handedOn sound complete collecting taken
  obtain ⟨current, is, rfl⟩ := Option.map_eq_some_iff.mp taken
  exact ⟨id, List.prefix_refl _, fun _ _ => collecting, .inr ⟨collecting, all⟩⟩

theorem append (sound : s.Sound) {line : Bytes} (taken : s.append line = some s') :
    Advance s s' := by
  obtain ⟨handedOn, point, running_, appended⟩ := append_handedOn sound taken
  have collecting : s'.Collecting ↔ s.Collecting := by
    unfold Collecting
    rw [point]
  constructor
  case running_ => exact fun stopped => running_.trans stopped
  case appended => exact ⟨[line], appended.symm⟩
  case point => exact fun _ => collecting.mp
  case handedOn => exact .inl ⟨handedOn, collecting.mpr⟩

/-- The next buffer moves from what is to be written to what has been written. -/
theorem writeNext {i : Nat} {buffer : BufferPtr} (point : s.point = .writing i)
    (found : s.buffersToWrite[i]? = some buffer) : Advance s { s with
      output := s.output ++ (s.heap buffer).data
      fates := s.fates ++ [⟨(s.heap buffer).pieces, true⟩]
      point := .writing (i + 1) } := by
  refine work (not_collecting point (by simp)) (not_collecting rfl (by simp)) ?_ rfl rfl
  unfold AsyncLogging.handedOn
  rw [contents_unwritten point found, List.flatten_append, ← List.append_assoc]
  rfl

/-- A step of any thread, with batches of at most 25 buffers. -/
theorem of_step (sound : s.Sound) (complete : s.Complete) {l : Label} (modest : s.Modest l)
    (taken : s.step l = some s') : Advance s s' := by
  cases step_steps taken with
  | append line taken => exact append sound taken
  | stop => exact ⟨fun _ => rfl, List.prefix_refl _, fun _ => id, .inl ⟨rfl, id⟩⟩
  | check point =>
    have before : Idle .deciding := by decide
    cases running : s.running_ with
    | false => exact idle (q := .exited) point before rfl (by decide) running.symm rfl rfl
    | true =>
      -- The thread starts to collect, which it would not do after `stop`.
      constructor
      case running_ => exact fun stopped => absurd (running.symm.trans stopped) (by decide)
      case appended => exact List.prefix_refl _
      case point => exact fun stopped => absurd (running.symm.trans stopped) (by decide)
      case handedOn =>
        refine .inl ⟨?_, fun collecting => absurd collecting (before.not_collecting point)⟩
        rw [before.handedOn point]
        exact handedOn_of_nothing rfl
  | wait point =>
    have collecting : s.Collecting := .inl point
    refine ⟨id, List.prefix_refl _, fun _ _ => collecting, .inl ⟨?_, fun _ => .inr rfl⟩⟩
    rw [handedOn_of_nothing collecting.unwritten]
    exact handedOn_of_nothing rfl
  | lock point taken => exact swap sound complete (.inl point) taken
  | wake point taken => exact swap sound complete (.inr point) taken
  | erase point large => exact absurd (modest rfl) (Nat.not_le_of_lt large)
  | keep point =>
    refine work (not_collecting point (by decide)) (not_collecting rfl (by simp)) ?_ rfl rfl
    unfold AsyncLogging.handedOn unwritten
    rw [point]
    rfl
  | write point found => exact writeNext point found
  | @written i point ended =>
    refine work (not_collecting point (by simp)) (not_collecting (p := .resizing) rfl (by decide))
      ?_ rfl rfl
    have nothing := unwritten_ended point ended
    exact (handedOn_of_nothing nothing).symm ▸ handedOn_of_nothing rfl
  | resize point => exact idle (q := .refilling1) point (by decide) rfl (by decide) rfl rfl rfl
  | refill1 point => exact idle (q := .refilling2) point (by decide) rfl (by decide) rfl rfl rfl
  | full1 point => exact idle (q := .refilling2) point (by decide) rfl (by decide) rfl rfl rfl
  | refill2 point => exact idle (q := .clearing) point (by decide) rfl (by decide) rfl rfl rfl
  | full2 point => exact idle (q := .clearing) point (by decide) rfl (by decide) rfl rfl rfl
  | clear point => exact idle (q := .deciding) point (by decide) rfl (by decide) rfl rfl rfl

end Advance

/-- A line stays in the front end. -/
theorem append_output {line : Bytes} (taken : s.append line = some s') :
    s'.output = s.output ∧ s'.point = s.point := by
  cases append_appends taken with
  | _ => exact ⟨rfl, rfl⟩

/-- Only `write` hands anything to the file, and the thread ends at its test of `running_`. -/
theorem step_output {l : Label} (other : l ≠ .write) (taken : s.step l = some s') :
    s'.output = s.output ∧
      (s'.point = .exited → s.point = .exited ∨ l = .check ∧ s.running_ = false) := by
  cases step_steps taken with
  | write | written => exact absurd rfl other
  | append line taken =>
    obtain ⟨output, point⟩ := append_output taken
    exact ⟨output, fun exited => .inl (point.symm.trans exited)⟩
  | stop => exact ⟨rfl, .inl⟩
  -- A thread that finds `running_` set goes on.
  | check =>
    refine ⟨rfl, fun exited => .inr ⟨rfl, ?_⟩⟩
    by_contra running
    simp [running] at exited
  | lock _ taken | wake _ taken =>
    obtain ⟨current, _, rfl⟩ := Option.map_eq_some_iff.mp taken
    exact ⟨rfl, fun exited => by cases exited⟩
  | _ => exact ⟨rfl, fun exited => by cases exited⟩

end AsyncLogging

namespace Logging

variable {s s' : Logging}

/-- The logging thread and its callers are those of `AsyncLogging`. -/
theorem step_log {l : Label} (taken : s.step l = some s') : s.log.step l = some s'.log ∧
    s'.output = s.threadOutput l ∧
      s'.completed = if l = .stop then some s.log.appended else s.completed := by
  unfold step at taken
  split at taken
  next => cases taken
  next =>
    obtain ⟨log, advanced, rfl⟩ := Option.map_eq_some_iff.mp taken
    exact ⟨advanced, rfl, rfl⟩

/-- The file has what was handed to it, flushed at the end of the thread. -/
structure Sound (s : Logging) : Prop where
  log : s.log.Sound
  complete : s.log.Complete
  file_ : s.output.file_ = s.log.output
  flushed : s.log.point = .exited → s.output.flushed = s.log.output

namespace Sound

theorem write (sound : s.Sound) (taken : s.step .write = some s') :
    s'.output.file_ = s'.log.output ∧ s'.log.point ≠ .exited := by
  obtain ⟨advanced, output, _⟩ := step_log taken
  rw [output]
  generalize s'.log = log at advanced ⊢
  cases AsyncLogging.step_steps advanced with
  | write point found =>
    simp only [threadOutput, point, found]
    exact ⟨(LogFile.append_file_ ..).trans (congrArg (· ++ _) sound.file_), by simp⟩
  | written point ended =>
    simp only [threadOutput, point, ended]
    exact ⟨sound.file_, by simp⟩

theorem step (sound : s.Sound) {l : Label} (modest : s.log.Modest l)
    (taken : s.step l = some s') : s'.Sound := by
  obtain ⟨advanced, output, _⟩ := step_log taken
  have log : s'.log.Sound := sound.log.step advanced
  have complete : s'.log.Complete := sound.complete.step modest advanced
  by_cases writes : l = .write
  · subst writes
    obtain ⟨file_, running⟩ := sound.write taken
    exact ⟨log, complete, file_, fun exited => absurd exited running⟩
  · obtain ⟨same, exits⟩ := step_output writes advanced
    refine ⟨log, complete, ?_, fun exited => ?_⟩
    · rw [output, same, ← sound.file_]
      -- Only the flushes remain, and they write nothing.
      cases l with
      | write => exact absurd rfl writes
      | check =>
        dsimp only [threadOutput]
        split
        · rfl
        · rfl
      | _ => rfl
    · rw [output, same]
      rcases exits exited with before | ⟨rfl, stopped⟩
      · -- After its end the thread takes no step, so the file is as it was left.
        rw [← sound.flushed before]
        cases l with
        | append line => rfl
        | stop => rfl
        | _ => simp [AsyncLogging.step, before] at advanced
      · unfold threadOutput
        rw [stopped]
        exact sound.file_

/-- At the end of the thread all that has left the front end is flushed. -/
theorem handedOn (sound : s.Sound) (exited : s.log.point = .exited) :
    s.output.flushed = s.log.handedOn := by
  have idle : Idle .exited := by decide
  rw [sound.flushed exited, idle.handedOn exited]

end Sound

/-! ### After stop -/

/-- The lines are in the file, in the batch or about to be swapped. -/
structure Catching (lines : List Bytes) (s : Logging) : Prop where
  sound : s.Sound
  completed : s.completed = some lines
  caught : s.log.Collecting ∧ lines <+: s.log.appended ∨ lines.flatten <+: s.log.handedOn

/-- They stay behind: the thread has passed its last swap. -/
structure Missing (lines : List Bytes) (handedOn : Bytes) (s : Logging) : Prop where
  sound : s.Sound
  completed : s.completed = some lines
  stopped : s.log.running_ = false
  passed : ¬s.log.Collecting
  handedOn : s.log.handedOn = handedOn

/-- `stop` is not called again. -/
theorem completed_step {lines : List Bytes} (completed : s.completed = some lines) {l : Label}
    (taken : s.step l = some s') : s'.completed = some lines := by
  have once : l ≠ .stop := by
    rintro rfl
    simp [step, completed] at taken
  rw [(step_log taken).2.2, if_neg once, completed]

theorem Catching.step {lines : List Bytes} (catching : s.Catching lines) {l : Label}
    (modest : s.log.Modest l) (taken : s.step l = some s') : s'.Catching lines := by
  obtain ⟨sound, completed, caught⟩ := catching
  have advance := Advance.of_step sound.log sound.complete modest (step_log taken).1
  refine ⟨sound.step modest taken, completed_step completed taken, ?_⟩
  rcases caught with ⟨collecting, appended⟩ | through
  -- The thread still collects, or it has swapped and the lines are in the batch.
  · rcases advance.handedOn with ⟨_, still⟩ | ⟨_, swapped⟩
    · left
      exact ⟨still collecting, appended.trans advance.appended⟩
    · right
      obtain ⟨later, eq⟩ := appended
      rw [swapped, ← eq, List.flatten_append]
      exact List.prefix_append _ _
  · right
    -- What has left the front end stays in front of what leaves it later.
    rcases advance.handedOn with ⟨same, _⟩ | ⟨_, swapped⟩
    · rw [same]
      exact through
    · rw [swapped, ← handedOn_front sound.log sound.complete]
      exact through.trans (List.prefix_append _ _)

theorem Missing.step {lines : List Bytes} {handedOn : Bytes} (missing : s.Missing lines handedOn)
    {l : Label} (modest : s.log.Modest l) (taken : s.step l = some s') :
    s'.Missing lines handedOn := by
  obtain ⟨sound, completed, stopped, passed, before⟩ := missing
  have advance := Advance.of_step sound.log sound.complete modest (step_log taken).1
  refine ⟨sound.step modest taken, completed_step completed taken, advance.running_ stopped,
    fun collecting => passed (advance.point stopped collecting), ?_⟩
  rcases advance.handedOn with ⟨same, _⟩ | ⟨collecting, _⟩
  · exact same.trans before
  · exact absurd collecting passed

/-- When `stop` is called the thread is yet to swap the buffers, or nothing waits in them. -/
def Caught (s : Logging) : Prop := s.log.Collecting ∨ s.log.front = []

instance (s : Logging) : Decidable s.Caught := inferInstanceAs (Decidable (_ ∨ _))

/-- The state right after the call. -/
theorem stop_spec (sound : s.Sound) (called : s.step .stop = some s') : s'.Sound ∧
    s'.completed = some s.log.appended ∧ s'.log = { s.log with running_ := false } := by
  obtain ⟨advanced, _, completed⟩ := step_log called
  have modest : s.log.Modest .stop := fun truncates => by cases truncates
  exact ⟨sound.step modest called, completed, (Option.some.inj advanced).symm⟩

/-- No swapped batch exceeds 25 buffers. -/
def Modest (s : Logging) (l : Label) : Prop := s.log.Modest l

instance (s : Logging) (l : Label) : Decidable (s.Modest l) :=
  inferInstanceAs (Decidable (s.log.Modest l))

theorem sound {s : Logging} (reached : machine.ReachableUnder Modest s) : s.Sound := by
  refine Machine.invariant_under ?_ (fun _ _ _ sound => sound.step) reached
  rintro s rfl
  refine ⟨sound_new, ⟨fun fate member => ?_, rfl⟩, rfl, fun exited => ?_⟩
  · cases member
  · cases exited

/-- In every run with batches of at most 25 buffers, when `stop` returns all lines that had been
appended when it was called are in the file and flushed, exactly where the thread was to swap the
buffers yet or no bytes were waiting in the front end. -/
theorem stop_loses_nothing_iff {s s' : Logging} {after : List Label}
    (reached : machine.ReachableUnder Modest s)
    (run : machine.exec s (.stop :: after) = some s')
    (modest : machine.Along (fun s l _ => s.Modest l) s (.stop :: after))
    (returned : s'.Returned) : s'.Delivered ↔ s.Caught := by
  have sound := sound reached
  obtain ⟨next, called, rest⟩ := Machine.exec_step run
  rw [Machine.Along, called] at modest
  obtain ⟨sound', completed, log⟩ := stop_spec sound called
  have all := handedOn_front sound.log sound.complete
  have same : next.log.handedOn = s.log.handedOn := by
    rw [log]
    rfl
  have point : next.log.Collecting ↔ s.log.Collecting := by
    rw [log]
    rfl
  by_cases caught : s.Caught
  · -- Caught: what was appended goes with the next swap, or has gone already.
    refine iff_of_true ?_ caught
    have catching : next.Catching s.log.appended := by
      refine ⟨sound', completed, caught.imp (fun collecting => ⟨point.mpr collecting, ?_⟩) ?_⟩
      · exact log ▸ List.prefix_refl _
      · intro nothing
        have left : s.log.appended.flatten = next.log.handedOn := by
          rw [same, ← all, nothing, List.append_nil]
        exact left ▸ List.prefix_refl _
    have ended : s'.Catching s.log.appended :=
      Machine.invariant_exec_under (fun _ _ _ h => h.step) catching modest.2 rest
    intro lines is
    rw [ended.completed] at is
    cases is
    rw [ended.sound.handedOn returned.2]
    rcases ended.caught with ⟨collecting, _⟩ | through
    · have idle : Idle .exited := by decide
      exact absurd collecting (idle.not_collecting returned.2)
    · exact through
  · -- Missed: the file ends before what waits in the front end.
    refine iff_of_false ?_ caught
    unfold Caught at caught
    push Not at caught
    obtain ⟨passed, waiting⟩ := caught
    have missing : next.Missing s.log.appended s.log.handedOn :=
      ⟨sound', completed, by rw [log], fun collecting => passed (point.mp collecting), same⟩
    have ended : s'.Missing s.log.appended s.log.handedOn :=
      Machine.invariant_exec_under (fun _ _ _ h => h.step) missing modest.2 rest
    intro delivered
    have whole := (delivered _ ended.completed).length_le
    rw [ended.sound.handedOn returned.2, ended.handedOn, ← all, List.length_append] at whole
    have some_ := List.length_pos_iff.mpr waiting
    omega

/-- A line is appended while the thread waits. -/
def early : List Label := [.check, .lock, .append ⟨[[120, 10]], by decide⟩]

/-- A line is appended while the thread writes its batch. -/
def late : List Label := [.check, .lock, .wake, .truncate, .append ⟨[[120, 10]], by decide⟩]

/-- The rest of the batch, up to the end of the thread. -/
def lastBatch : List Label := [.write, .write, .resize, .refill1, .refill2, .clear, .check]

theorem stop_loses_nothing_iff_early : ∃ s s', machine.exec new early = some s ∧
    machine.exec s (.stop :: .wake :: .truncate :: lastBatch) = some s' ∧
    s'.output.flushed = [120, 10] ∧ s'.Delivered := by
  let rest : List Label := .stop :: .wake :: .truncate :: lastBatch
  have modest : machine.Along (fun s l _ => s.Modest l) new early := by decide
  obtain ⟨s, called, caught, modest', more⟩ := Machine.exec_any (M := machine)
    (fun s => s.Caught ∧ machine.Along (fun s l _ => s.Modest l) s rest ∧
      (machine.exec s rest).any fun s' => s'.Returned ∧ s'.output.flushed = [120, 10])
    new early (by decide)
  obtain ⟨s', run, returned, flushed⟩ := Machine.exec_any (M := machine)
    (fun s' => s'.Returned ∧ s'.output.flushed = [120, 10]) s rest more
  have reached := Machine.reachable_exec (.init rfl) modest called
  exact ⟨s, s', called, run, flushed,
    (stop_loses_nothing_iff reached run modest' returned).mpr caught⟩

/-- The thread clears its batch and comes to an end with the line in `currentBuffer_`. -/
theorem late_line_is_lost : ∃ s s', machine.exec new late = some s ∧
    machine.exec s (.stop :: lastBatch) = some s' ∧
    machine.Along (fun s l _ => s.Modest l) new (late ++ .stop :: lastBatch) ∧ s'.Returned ∧
    s'.completed = some [[120, 10]] ∧ s'.output.flushed = [] ∧ ¬s'.Delivered := by
  obtain ⟨s, called, more⟩ := Machine.exec_any (M := machine)
    (fun s => (machine.exec s (.stop :: lastBatch)).any fun s' => s'.Returned ∧
      s'.completed = some [[120, 10]] ∧ s'.output.flushed = [] ∧ ¬s'.Delivered)
    new late (by decide)
  obtain ⟨s', run, lost⟩ := Machine.exec_any (M := machine)
    (fun s' => s'.Returned ∧ s'.completed = some [[120, 10]] ∧ s'.output.flushed = [] ∧
      ¬s'.Delivered) s (.stop :: lastBatch) more
  exact ⟨s, s', called, run, by decide, lost⟩

end Logging

end LightAgent

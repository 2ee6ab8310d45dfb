import LightAgent.Base.LogStream
import LightAgent.Library.Runs
import Mathlib.Data.List.Flatten
import Mathlib.Data.List.Nodup
import Mathlib.Logic.Function.Basic

/-!
# AsyncLogging: the front end and the logging thread

Any number of threads call `append`, one thread runs `threadFunc`. A step is a block under
`mutex_` or a piece of work of the logging thread between two such blocks. Buffers are
objects named by numbers, and the members that point to them hold such a name or `none`.
A run records the lines in the order of `mutex_`, and what has become of each batch.
-/
namespace LightAgent

open Library Function

abbrev BufferPtr := Nat

namespace AsyncLogging

/-- Where `threadFunc` stands. -/
inductive Point where
  /-- at `while (running_)` -/
  | deciding
  /-- before the block under `mutex_` -/
  | locking
  /-- in `cond_.waitForSeconds` -/
  | waiting
  /-- before the test for more than 25 buffers -/
  | truncating
  /-- in the loop that writes, before this buffer -/
  | writing (i : Nat)
  | resizing
  | refilling1
  | refilling2
  | clearing
  | exited
  deriving DecidableEq, Repr

/-- What has become of a buffer of a batch: its pieces, and whether they were written. -/
structure Fate where
  pieces : List Bytes
  written : Bool
  deriving DecidableEq

end AsyncLogging

open AsyncLogging

structure AsyncLogging where
  running_ : Bool
  heap : BufferPtr → FixedBuffer kLargeBuffer
  /-- the next name for `new Buffer` -/
  allocated : BufferPtr
  currentBuffer_ : Option BufferPtr
  nextBuffer_ : Option BufferPtr
  buffers_ : List BufferPtr
  newBuffer1 : Option BufferPtr
  newBuffer2 : Option BufferPtr
  buffersToWrite : List BufferPtr
  point : Point
  /-- what has been handed to the `LogFile` -/
  output : Bytes
  /-- all lines that were appended -/
  appended : List Bytes
  /-- the buffers of the batches that are done -/
  fates : List Fate
  /-- the pieces of the buffers erased from the batch that is being written -/
  erased : List (List Bytes)

namespace AsyncLogging

/-- `new Buffer` -/
def emptyBuffer : FixedBuffer kLargeBuffer := ⟨[], by decide⟩

/-- After the constructor and `start`, with the buffers of `threadFunc`. -/
def new : AsyncLogging where
  running_ := true
  heap := fun _ => emptyBuffer
  allocated := 4
  currentBuffer_ := some 0
  nextBuffer_ := some 1
  buffers_ := []
  newBuffer1 := some 2
  newBuffer2 := some 3
  buffersToWrite := []
  point := .deciding
  output := []
  appended := []
  fates := []
  erased := []

inductive Label where
  /-- `append`, with the line of a `Logger` -/
  | append (line : LogLine)
  | stop
  | check
  | lock
  | wake
  | truncate
  | write
  | resize
  | refill1
  | refill2
  | clear
  deriving DecidableEq

/-- `currentBuffer_->append(logline, len)` -/
def put (s : AsyncLogging) (current : BufferPtr) (line : Bytes) : AsyncLogging :=
  { s with
    heap := update s.heap current ((s.heap current).append line)
    appended := s.appended ++ [line] }

/-- `AsyncLogging::append`, undefined where there is no current buffer -/
def append (s : AsyncLogging) (line : Bytes) : Option AsyncLogging :=
  match s.currentBuffer_ with
  | none => none
  | some current =>
    if (s.heap current).avail > line.length then some (s.put current line)
    else
      -- The current buffer is full and goes to the batch of the logging thread.
      let s := { s with buffers_ := s.buffers_ ++ [current] }
      match s.nextBuffer_ with
      | some next => some ({ s with currentBuffer_ := some next, nextBuffer_ := none }.put next line)
      -- No spare buffer is left: `currentBuffer_.reset(new Buffer)`.
      | none =>
        some ({ s with
          currentBuffer_ := some s.allocated
          allocated := s.allocated + 1
          heap := update s.heap s.allocated emptyBuffer }.put s.allocated line)

/-- The rest of the block under `mutex_`, once the thread does not wait; undefined where
there is no current buffer -/
def swap (s : AsyncLogging) : Option AsyncLogging :=
  s.currentBuffer_.map fun current =>
    { s with
      currentBuffer_ := s.newBuffer1
      newBuffer1 := none
      buffersToWrite := s.buffers_ ++ [current]
      buffers_ := s.buffersToWrite
      nextBuffer_ := if s.nextBuffer_.isNone then s.newBuffer2 else s.nextBuffer_
      newBuffer2 := if s.nextBuffer_.isNone then none else s.newBuffer2
      point := .truncating }

/-- `newBuffer = buffersToWrite.back(); pop_back(); newBuffer->reset()`, undefined where there
is no buffer -/
def recycle (s : AsyncLogging) : Option (BufferPtr × AsyncLogging) :=
  s.buffersToWrite.getLast?.map fun buffer =>
    (buffer, { s with
      buffersToWrite := s.buffersToWrite.dropLast
      heap := update s.heap buffer (s.heap buffer).reset })

def step (s : AsyncLogging) : Label → Option AsyncLogging
  | .append line => s.append line.data
  | .stop => some { s with running_ := false }
  | .check =>
    if s.point = .deciding then
      some { s with point := if s.running_ then .locking else .exited }
    else none
  | .lock =>
    if s.point = .locking then
      -- Where no buffer is full, `cond_.waitForSeconds` comes before the swap.
      if s.buffers_ = [] then some { s with point := .waiting } else s.swap
    else none
  | .wake => if s.point = .waiting then s.swap else none
  | .truncate =>
    if s.point = .truncating then
      -- The first two buffers are kept; the lines of the others are lost.
      if s.buffersToWrite.length > 25 then
        some { s with
          buffersToWrite := s.buffersToWrite.take 2
          erased := (s.buffersToWrite.drop 2).map fun buffer => (s.heap buffer).pieces
          point := .writing 0 }
      else some { s with point := .writing 0 }
    else none
  | .write =>
    -- The loop over `buffersToWrite`, one buffer at a time.
    match s.point with
    | .writing i =>
      match s.buffersToWrite[i]? with
      | some buffer =>
        some { s with
          output := s.output ++ (s.heap buffer).data
          fates := s.fates ++ [⟨(s.heap buffer).pieces, true⟩]
          point := .writing (i + 1) }
      | none =>
        some { s with
          fates := s.fates ++ s.erased.map fun pieces => ⟨pieces, false⟩
          erased := []
          point := .resizing }
    | _ => none
  | .resize =>
    if s.point = .resizing then
      some { s with buffersToWrite := s.buffersToWrite.take 2, point := .refilling1 }
    else none
  | .refill1 =>
    if s.point = .refilling1 then
      if s.newBuffer1.isNone then
        s.recycle.map fun (buffer, s) => { s with newBuffer1 := some buffer, point := .refilling2 }
      else some { s with point := .refilling2 }
    else none
  | .refill2 =>
    if s.point = .refilling2 then
      if s.newBuffer2.isNone then
        s.recycle.map fun (buffer, s) => { s with newBuffer2 := some buffer, point := .clearing }
      else some { s with point := .clearing }
    else none
  | .clear =>
    if s.point = .clearing then some { s with buffersToWrite := [], point := .deciding } else none

def machine : Machine AsyncLogging Label := ⟨(· = new), step⟩

/-- What `append` does, with what it finds. -/
inductive Appends (s : AsyncLogging) (line : Bytes) : AsyncLogging → Prop
  | fits {current : BufferPtr} : s.currentBuffer_ = some current →
      (s.heap current).avail > line.length → Appends s line (s.put current line)
  | turn {current next : BufferPtr} : s.currentBuffer_ = some current →
      s.nextBuffer_ = some next → Appends s line ({ s with
        buffers_ := s.buffers_ ++ [current]
        currentBuffer_ := some next
        nextBuffer_ := none }.put next line)
  | grow {current : BufferPtr} : s.currentBuffer_ = some current → s.nextBuffer_ = none →
      Appends s line ({ s with
        buffers_ := s.buffers_ ++ [current]
        currentBuffer_ := some s.allocated
        allocated := s.allocated + 1
        heap := update s.heap s.allocated emptyBuffer }.put s.allocated line)

theorem append_appends {s s' : AsyncLogging} {line : Bytes} (taken : s.append line = some s') :
    s.Appends line s' := by
  unfold append at taken
  split at taken
  next => cases taken
  next current is =>
    split at taken
    next fits => cases taken; exact .fits is fits
    next =>
      dsimp only at taken
      split at taken
      next next spare => cases taken; exact .turn is spare
      next spare => cases taken; exact .grow is spare

/-- What a step does, with what it finds. -/
inductive Steps (s : AsyncLogging) : Label → AsyncLogging → Prop
  | append {s' : AsyncLogging} (line : LogLine) : s.append line.data = some s' →
      Steps s (.append line) s'
  | stop : Steps s .stop { s with running_ := false }
  | check : s.point = .deciding →
      Steps s .check { s with point := if s.running_ then .locking else .exited }
  | wait : s.point = .locking → Steps s .lock { s with point := .waiting }
  | lock {s' : AsyncLogging} : s.point = .locking → s.swap = some s' → Steps s .lock s'
  | wake {s' : AsyncLogging} : s.point = .waiting → s.swap = some s' → Steps s .wake s'
  | erase : s.point = .truncating → s.buffersToWrite.length > 25 → Steps s .truncate { s with
      buffersToWrite := s.buffersToWrite.take 2
      erased := (s.buffersToWrite.drop 2).map fun buffer => (s.heap buffer).pieces
      point := .writing 0 }
  | keep : s.point = .truncating → Steps s .truncate { s with point := .writing 0 }
  | write {i : Nat} {buffer : BufferPtr} : s.point = .writing i →
      s.buffersToWrite[i]? = some buffer → Steps s .write { s with
        output := s.output ++ (s.heap buffer).data
        fates := s.fates ++ [⟨(s.heap buffer).pieces, true⟩]
        point := .writing (i + 1) }
  | written {i : Nat} : s.point = .writing i → s.buffersToWrite[i]? = none → Steps s .write { s with
      fates := s.fates ++ s.erased.map fun pieces => ⟨pieces, false⟩
      erased := []
      point := .resizing }
  | resize : s.point = .resizing → Steps s .resize { s with
      buffersToWrite := s.buffersToWrite.take 2
      point := .refilling1 }
  | refill1 {buffer : BufferPtr} : s.point = .refilling1 → s.newBuffer1 = none →
      s.buffersToWrite.getLast? = some buffer → Steps s .refill1 { s with
        heap := update s.heap buffer (s.heap buffer).reset
        buffersToWrite := s.buffersToWrite.dropLast
        newBuffer1 := some buffer
        point := .refilling2 }
  | full1 : s.point = .refilling1 → s.newBuffer1 ≠ none →
      Steps s .refill1 { s with point := .refilling2 }
  | refill2 {buffer : BufferPtr} : s.point = .refilling2 → s.newBuffer2 = none →
      s.buffersToWrite.getLast? = some buffer → Steps s .refill2 { s with
        heap := update s.heap buffer (s.heap buffer).reset
        buffersToWrite := s.buffersToWrite.dropLast
        newBuffer2 := some buffer
        point := .clearing }
  | full2 : s.point = .refilling2 → s.newBuffer2 ≠ none →
      Steps s .refill2 { s with point := .clearing }
  | clear : s.point = .clearing →
      Steps s .clear { s with buffersToWrite := [], point := .deciding }

theorem step_steps {s s' : AsyncLogging} {l : Label} (taken : s.step l = some s') :
    s.Steps l s' := by
  cases l with
  | append line => exact .append line taken
  | stop => cases taken; exact .stop
  | check =>
    simp only [step] at taken
    split at taken
    next point => cases taken; exact .check point
    next => cases taken
  | lock =>
    simp only [step] at taken
    split at taken
    next point =>
      split at taken
      next => cases taken; exact .wait point
      next => exact .lock point taken
    next => cases taken
  | wake =>
    simp only [step] at taken
    split at taken
    next point => exact .wake point taken
    next => cases taken
  | truncate =>
    simp only [step] at taken
    split at taken
    next point =>
      split at taken
      next large => cases taken; exact .erase point large
      next => cases taken; exact .keep point
    next => cases taken
  | write =>
    simp only [step] at taken
    split at taken
    next i point =>
      split at taken
      next buffer found => cases taken; exact .write point found
      next ended => cases taken; exact .written point ended
    next => cases taken
  | resize =>
    simp only [step] at taken
    split at taken
    next point => cases taken; exact .resize point
    next => cases taken
  | refill1 =>
    simp only [step] at taken
    split at taken
    next point =>
      split at taken
      next gone =>
        obtain ⟨⟨_, _⟩, recycled, rfl⟩ := Option.map_eq_some_iff.mp taken
        obtain ⟨buffer, last, eq⟩ := Option.map_eq_some_iff.mp recycled
        cases eq
        exact .refill1 point (Option.isNone_iff_eq_none.mp gone) last
      next kept => cases taken; exact .full1 point (by simpa using kept)
    next => cases taken
  | refill2 =>
    simp only [step] at taken
    split at taken
    next point =>
      split at taken
      next gone =>
        obtain ⟨⟨_, _⟩, recycled, rfl⟩ := Option.map_eq_some_iff.mp taken
        obtain ⟨buffer, last, eq⟩ := Option.map_eq_some_iff.mp recycled
        cases eq
        exact .refill2 point (Option.isNone_iff_eq_none.mp gone) last
      next kept => cases taken; exact .full2 point (by simpa using kept)
    next => cases taken
  | clear =>
    simp only [step] at taken
    split at taken
    next point => cases taken; exact .clear point
    next => cases taken

/-! ### The invariant -/

/-- All pointers to buffers. -/
def refs (s : AsyncLogging) : List BufferPtr :=
  s.currentBuffer_.toList ++ s.nextBuffer_.toList ++ s.buffers_ ++ s.newBuffer1.toList ++
    s.newBuffer2.toList ++ s.buffersToWrite

/-- The pieces in these buffers. -/
def contents (s : AsyncLogging) (buffers : List BufferPtr) : List Bytes :=
  (buffers.map fun buffer => (s.heap buffer).pieces).flatten

/-- The part of `buffersToWrite` that is still to be written. -/
def unwritten (s : AsyncLogging) : List BufferPtr :=
  match s.point with
  | .truncating => s.buffersToWrite
  | .writing i => s.buffersToWrite.drop i
  | _ => []

/-- `threadFunc` has both its buffers and no batch. -/
def Rested (s : AsyncLogging) : Prop :=
  s.newBuffer1 ≠ none ∧ s.newBuffer2 ≠ none ∧ s.buffersToWrite = []

/-- There is a batch, with a buffer for each one that has been given away. -/
def Loaded (s : AsyncLogging) : Prop :=
  s.newBuffer1 = none ∧ s.buffersToWrite ≠ [] ∧
    (s.newBuffer2 = none → 2 ≤ s.buffersToWrite.length)

/-- What the buffers of `threadFunc` are at its points. -/
def Staged (s : AsyncLogging) : Point → Prop
  | .deciding | .locking | .waiting | .exited => s.Rested
  | .truncating | .resizing | .refilling1 => s.Loaded
  | .writing i => s.Loaded ∧ i ≤ s.buffersToWrite.length
  | .refilling2 => s.newBuffer1 ≠ none ∧ (s.newBuffer2 = none → s.buffersToWrite ≠ [])
  | .clearing => s.newBuffer1 ≠ none ∧ s.newBuffer2 ≠ none

/-- No two pointers share a buffer, spare ones are empty, and every line is somewhere. -/
structure Sound (s : AsyncLogging) : Prop where
  unique : s.refs.Nodup
  made : ∀ buffer ∈ s.refs, buffer < s.allocated
  spare : ∀ buffer ∈ s.nextBuffer_.toList ++ s.newBuffer1.toList ++ s.newBuffer2.toList,
    (s.heap buffer).pieces = []
  current : s.currentBuffer_ ≠ none
  /-- a next buffer that is gone has replaced one that is full -/
  full : s.nextBuffer_ = none → s.buffers_ ≠ []
  staged : s.Staged s.point
  settled : (∀ i, s.point ≠ .writing i) → s.erased = []
  record : s.appended = (s.fates.map (·.pieces)).flatten ++ s.contents s.unwritten ++
    s.erased.flatten ++ s.contents s.buffers_ ++ s.contents s.currentBuffer_.toList
  output : s.output = ((s.fates.filter (·.written)).map (·.pieces.flatten)).flatten

theorem sound_new : new.Sound := by
  refine ⟨by decide, by decide, fun _ _ => rfl, nofun, nofun, ⟨nofun, nofun, rfl⟩, fun _ => rfl,
    rfl, rfl⟩

theorem contents_append (s : AsyncLogging) (xs ys : List BufferPtr) :
    s.contents (xs ++ ys) = s.contents xs ++ s.contents ys := by
  unfold contents
  rw [List.map_append, List.flatten_append]

/-- A buffer that is not among them may change. -/
theorem contents_update {s : AsyncLogging} {buffer : BufferPtr} {buffers : List BufferPtr}
    (other : buffer ∉ buffers) (changed : FixedBuffer kLargeBuffer) :
    { s with heap := update s.heap buffer changed }.contents buffers = s.contents buffers := by
  unfold contents
  congr 1
  apply List.map_congr_left
  intro b member
  have differs : b ≠ buffer := fun same => other (same ▸ member)
  simp [differs]

theorem unwritten_subset (s : AsyncLogging) : s.unwritten ⊆ s.buffersToWrite := by
  unfold unwritten
  split
  · exact List.Subset.refl _
  · exact List.drop_subset _ _
  · exact List.nil_subset _

theorem unwritten_eq_nil {s : AsyncLogging} {p : Point} (point : s.point = p)
    (done : p ≠ .truncating ∧ ∀ i, p ≠ .writing i) : s.unwritten = [] := by
  subst point
  unfold unwritten
  split
  next point => exact absurd point done.1
  next i point => exact absurd point (done.2 i)
  next => rfl

theorem unwritten_ended {s : AsyncLogging} {i : Nat} (point : s.point = .writing i)
    (ended : s.buffersToWrite[i]? = none) : s.unwritten = [] := by
  unfold unwritten
  rw [point]
  exact List.drop_eq_nil_of_le (List.getElem?_eq_none_iff.mp ended)

/-- The buffer to write next comes first. -/
theorem contents_unwritten {s : AsyncLogging} {i : Nat} {buffer : BufferPtr}
    (point : s.point = .writing i) (found : s.buffersToWrite[i]? = some buffer) :
    s.contents s.unwritten =
      (s.heap buffer).pieces ++ s.contents (s.buffersToWrite.drop (i + 1)) := by
  obtain ⟨inside, is⟩ := List.getElem?_eq_some_iff.mp found
  unfold unwritten contents
  rw [point]
  dsimp only
  rw [List.drop_eq_getElem_cons inside, is, List.map_cons, List.flatten_cons]

namespace Sound

variable {s : AsyncLogging}

/-- Pointers may be rearranged. -/
theorem unique_of_count (sound : s.Sound) (refs : List BufferPtr)
    (fewer : ∀ buffer, refs.count buffer ≤ s.refs.count buffer) :
    refs.Nodup ∧ ∀ buffer ∈ refs, buffer < s.allocated := by
  have once := List.nodup_iff_count_le_one.mp sound.unique
  refine ⟨List.nodup_iff_count_le_one.mpr fun buffer => Nat.le_trans (fewer buffer) (once buffer), ?_⟩
  intro buffer member
  apply sound.made
  exact List.count_pos_iff.mp (Nat.lt_of_lt_of_le (List.count_pos_iff.mpr member) (fewer buffer))

/-- Buffers of the batch may be given up. -/
theorem unique_of_sublist (sound : s.Sound) {batch : List BufferPtr}
    (part : batch.Sublist s.buffersToWrite) :
    (s.currentBuffer_.toList ++ s.nextBuffer_.toList ++ s.buffers_ ++ s.newBuffer1.toList ++
      s.newBuffer2.toList ++ batch).Nodup ∧
    ∀ buffer ∈ s.currentBuffer_.toList ++ s.nextBuffer_.toList ++ s.buffers_ ++
      s.newBuffer1.toList ++ s.newBuffer2.toList ++ batch, buffer < s.allocated := by
  refine sound.unique_of_count _ fun buffer => ?_
  have fewer := part.count_le buffer
  unfold AsyncLogging.refs
  simp only [List.count_append]
  omega

/-- Away from the writing of a batch nothing of it has been erased or is to be written. -/
theorem quiet (sound : s.Sound) {p : Point} (point : s.point = p)
    (done : p ≠ .truncating ∧ ∀ i, p ≠ .writing i) : s.unwritten = [] ∧ s.erased = [] := by
  subst point
  exact ⟨unwritten_eq_nil rfl done, sound.settled done.2⟩

/-- Nothing else points to the current buffer. -/
theorem alone (sound : s.Sound) {current : BufferPtr} (is : s.currentBuffer_ = some current) :
    current ∉ s.nextBuffer_.toList ++ s.newBuffer1.toList ++ s.newBuffer2.toList ∧
      current ∉ s.buffers_ ∧ current ∉ s.unwritten := by
  have once := List.nodup_iff_count_le_one.mp sound.unique current
  unfold refs at once
  rw [is] at once
  simp only [List.count_append, Option.toList_some, List.count_singleton_self] at once
  -- Another reference to the current buffer would make its count two.
  refine ⟨fun member => ?_, fun member => ?_, fun member => ?_⟩
  · have twice := List.count_pos_iff.mpr member
    simp only [List.count_append] at twice
    omega
  · have twice := List.count_pos_iff.mpr member
    omega
  · have twice := List.count_pos_iff.mpr (s.unwritten_subset member)
    omega

/-- The front end puts a line into the current buffer. -/
theorem put (sound : s.Sound) {current : BufferPtr} (is : s.currentBuffer_ = some current)
    {line : Bytes} (fits : (s.heap current).avail > line.length) : (s.put current line).Sound := by
  obtain ⟨spare, full, later⟩ := sound.alone is
  -- The line only changes the current buffer, which nothing else refers to.
  have same {buffers : List BufferPtr} (other : current ∉ buffers) :
      (s.put current line).contents buffers = s.contents buffers := contents_update other _
  constructor
  case unique => exact sound.unique
  case made => exact sound.made
  case spare =>
    intro buffer member
    have other : buffer ≠ current := fun same => spare (same ▸ member)
    exact (congrArg _ (update_of_ne other _ _)).trans (sound.spare buffer member)
  case current => exact sound.current
  case full => exact sound.full
  case staged => exact sound.staged
  case settled => exact sound.settled
  case output => exact sound.output
  case record =>
    have more : (s.put current line).contents s.currentBuffer_.toList =
        s.contents s.currentBuffer_.toList ++ [line] := by
      rw [is]
      simp [contents, AsyncLogging.put, FixedBuffer.append_pieces fits]
    change s.appended ++ [line] = (s.fates.map (·.pieces)).flatten ++
      (s.put current line).contents s.unwritten ++ s.erased.flatten ++
      (s.put current line).contents s.buffers_ ++ (s.put current line).contents s.currentBuffer_.toList
    rw [same later, same full, more, ← List.append_assoc, ← sound.record]

/-- The current buffer is full, and an empty one takes its place. -/
theorem turn (sound : s.Sound) {current next : BufferPtr} (is : s.currentBuffer_ = some current)
    (spare : s.nextBuffer_ = some next) : Sound { s with
      buffers_ := s.buffers_ ++ [current]
      currentBuffer_ := some next
      nextBuffer_ := none } := by
  have refs : ∀ buffer, ([next] ++ [] ++ (s.buffers_ ++ [current]) ++ s.newBuffer1.toList ++
      s.newBuffer2.toList ++ s.buffersToWrite).count buffer ≤ s.refs.count buffer := by
    intro buffer
    unfold AsyncLogging.refs
    rw [is, spare]
    simp only [List.count_append, Option.toList_some, List.count_nil]
    omega
  obtain ⟨unique, made⟩ := sound.unique_of_count _ refs
  -- The spare buffer is empty, so the record does not change.
  have empty : s.contents [next] = [] := by
    have pieces := sound.spare next (by rw [spare]; simp)
    simp [contents, pieces]
  refine ⟨unique, made, fun buffer member => ?_, nofun, fun _ => ?_, sound.staged, sound.settled,
    ?_, sound.output⟩
  · apply sound.spare
    rw [spare, List.append_assoc]
    exact List.mem_append_right _ member
  · exact List.append_ne_nil_of_right_ne_nil _ (List.cons_ne_nil _ _)
  · have record := sound.record
    rw [is] at record
    change s.appended = (s.fates.map (·.pieces)).flatten ++ s.contents s.unwritten ++
      s.erased.flatten ++ s.contents (s.buffers_ ++ [current]) ++ s.contents [next]
    rw [empty, contents_append, List.append_nil, ← List.append_assoc]
    exact record

/-- The same where there is no spare buffer. -/
theorem grow (sound : s.Sound) {current : BufferPtr} (is : s.currentBuffer_ = some current)
    (spare : s.nextBuffer_ = none) : Sound { s with
      buffers_ := s.buffers_ ++ [current]
      currentBuffer_ := some s.allocated
      allocated := s.allocated + 1
      heap := update s.heap s.allocated emptyBuffer } := by
  let rest := s.buffers_ ++ [current] ++ s.newBuffer1.toList ++ s.newBuffer2.toList ++
    s.buffersToWrite
  have refs : ∀ buffer, rest.count buffer ≤ s.refs.count buffer := by
    intro buffer
    unfold AsyncLogging.refs
    rw [is, spare]
    simp only [rest, List.count_append, Option.toList_some, Option.toList_none, List.count_nil]
    omega
  obtain ⟨unique, made⟩ := sound.unique_of_count _ refs
  have fresh : s.allocated ∉ rest := fun member => absurd (made _ member) (Nat.lt_irrefl _)
  have all : AsyncLogging.refs { s with
      buffers_ := s.buffers_ ++ [current]
      currentBuffer_ := some s.allocated
      allocated := s.allocated + 1
      heap := update s.heap s.allocated emptyBuffer } = s.allocated :: rest := by
    simp [AsyncLogging.refs, spare, rest]
  -- No pointer that was there before is one to the new buffer.
  have older {buffer : BufferPtr} (member : buffer ∈ s.refs) : buffer ≠ s.allocated :=
    Nat.ne_of_lt (sound.made buffer member)
  have same {buffers : List BufferPtr} (subset : buffers ⊆ s.refs) :
      AsyncLogging.contents { s with heap := update s.heap s.allocated emptyBuffer } buffers =
        s.contents buffers := contents_update (fun member => older (subset member) rfl) _
  constructor
  case unique => rw [all]; exact List.nodup_cons.mpr ⟨fresh, unique⟩
  case made =>
    rw [all]
    intro buffer member
    rcases List.mem_cons.mp member with rfl | member
    · exact Nat.lt_succ_self _
    · exact Nat.lt_succ_of_lt (made buffer member)
  case spare =>
    intro buffer member
    have listed : buffer ∈ s.refs := by
      unfold AsyncLogging.refs
      simp only [List.mem_append] at member ⊢
      tauto
    exact (congrArg _ (update_of_ne (older listed) _ _)).trans (sound.spare buffer member)
  case current => nofun
  case full => exact fun _ => List.append_ne_nil_of_right_ne_nil _ (List.cons_ne_nil _ _)
  case staged => exact sound.staged
  case settled => exact sound.settled
  case output => exact sound.output
  case record =>
    have record := sound.record
    rw [is] at record
    have empty : AsyncLogging.contents { s with heap := update s.heap s.allocated emptyBuffer }
        [s.allocated] = [] := by simp [contents, emptyBuffer]
    have later : s.unwritten ⊆ s.refs := fun _ member =>
      List.mem_append_right _ (s.unwritten_subset member)
    have before : s.buffers_ ++ [current] ⊆ s.refs := by
      intro buffer member
      unfold AsyncLogging.refs
      rw [is]
      simp only [List.mem_append, Option.toList_some] at member ⊢
      tauto
    change s.appended = (s.fates.map (·.pieces)).flatten ++
      AsyncLogging.contents { s with heap := update s.heap s.allocated emptyBuffer } s.unwritten ++
      s.erased.flatten ++
      AsyncLogging.contents { s with heap := update s.heap s.allocated emptyBuffer }
        (s.buffers_ ++ [current]) ++
      AsyncLogging.contents { s with heap := update s.heap s.allocated emptyBuffer } [s.allocated]
    rw [empty, same later, same before, contents_append, List.append_nil, ← List.append_assoc]
    exact record

theorem append (sound : s.Sound) {s' : AsyncLogging} {line : LogLine}
    (taken : s.append line.data = some s') : s'.Sound := by
  cases append_appends taken with
  | fits is fits => exact sound.put is fits
  -- In the other branches the line fits an empty buffer.
  | @turn current next is spare =>
    have pieces := sound.spare next (by rw [spare]; simp)
    exact (sound.turn is spare).put rfl (FixedBuffer.avail_empty pieces line.short)
  | grow is spare =>
    refine (sound.grow is spare).put rfl (FixedBuffer.avail_empty ?_ line.short)
    have made : update s.heap s.allocated emptyBuffer s.allocated = emptyBuffer :=
      update_self _ _ _
    exact congrArg FixedBuffer.pieces made

/-! The steps of the logging thread. -/

/-- The thread goes on to a point where as much is still to be written. -/
theorem goOn (sound : s.Sound) {point : Point} (staged : s.Staged point)
    (same : { s with point := point }.unwritten = s.unwritten)
    (settled : (∀ i, point ≠ .writing i) → s.erased = []) :
    Sound { s with point := point } := by
  refine ⟨sound.unique, sound.made, sound.spare, sound.current, sound.full, ?_, settled, ?_,
    sound.output⟩
  · cases point <;> exact staged
  · rw [same]
    exact sound.record

/-- The block under `mutex_`. -/
theorem swap (sound : s.Sound) {s' : AsyncLogging} (rested : s.Rested)
    (before : s.point = .locking ∨ s.point = .waiting) (taken : s.swap = some s') : s'.Sound := by
  obtain ⟨current, is, rfl⟩ := Option.map_eq_some_iff.mp taken
  obtain ⟨one, two, none_⟩ := rested
  obtain ⟨nothing, erased⟩ : s.unwritten = [] ∧ s.erased = [] := by
    rcases before with point | point
    · exact sound.quiet point (by simp)
    · exact sound.quiet point (by simp)
  -- The pointers beside the current buffer, whether or not the next one is replaced.
  have given (buffer : BufferPtr) :
      (if s.nextBuffer_.isNone then s.newBuffer2 else s.nextBuffer_).toList.count buffer +
        (if s.nextBuffer_.isNone then none else s.newBuffer2).toList.count buffer =
      s.nextBuffer_.toList.count buffer + s.newBuffer2.toList.count buffer := by
    cases s.nextBuffer_ with
    | none => simp
    | some next => simp
  obtain ⟨unique, made⟩ := sound.unique_of_count (s.newBuffer1.toList ++
    (if s.nextBuffer_.isNone then s.newBuffer2 else s.nextBuffer_).toList ++ s.buffersToWrite ++
    [] ++ (if s.nextBuffer_.isNone then none else s.newBuffer2).toList ++ (s.buffers_ ++ [current]))
    (fun buffer => by
      have same := given buffer
      unfold AsyncLogging.refs
      rw [is]
      simp only [List.count_append, Option.toList_some, List.count_nil] at same ⊢
      omega)
  refine ⟨unique, made, fun buffer member => ?_, one, fun gone => ?_, ⟨rfl, ?_, fun gone => ?_⟩,
    fun _ => erased, ?_, sound.output⟩
  · apply sound.spare
    have same := given buffer
    have listed := List.count_pos_iff.mpr member
    apply List.count_pos_iff.mp
    simp only [List.count_append, Option.toList_none, List.count_nil] at listed ⊢
    omega
  · dsimp only at gone
    split at gone
    · exact absurd gone two
    next some_ => exact absurd (gone ▸ rfl) some_
  · exact List.append_ne_nil_of_right_ne_nil _ (List.cons_ne_nil _ _)
  · dsimp only at gone ⊢
    split at gone
    next replaced =>
      have full := List.length_pos_iff.mpr (sound.full (Option.isNone_iff_eq_none.mp replaced))
      rw [List.length_append, List.length_singleton]
      omega
    · exact absurd gone two
  · have record := sound.record
    rw [is, nothing, erased] at record
    have empty : s.contents s.newBuffer1.toList = [] := by
      obtain ⟨buffer, eq⟩ := Option.ne_none_iff_exists'.mp one
      have pieces := sound.spare buffer (by rw [eq]; simp)
      simp [contents, eq, pieces]
    change s.appended = (s.fates.map (·.pieces)).flatten ++ s.contents (s.buffers_ ++ [current]) ++
      s.erased.flatten ++ s.contents s.buffersToWrite ++ s.contents s.newBuffer1.toList
    rw [empty, none_, erased, contents_append]
    simpa [contents] using record

/-- All but the first two buffers of a large batch are erased. -/
theorem truncate (sound : s.Sound) (point : s.point = .truncating)
    (large : s.buffersToWrite.length > 25) : Sound { s with
      buffersToWrite := s.buffersToWrite.take 2
      erased := (s.buffersToWrite.drop 2).map fun buffer => (s.heap buffer).pieces
      point := .writing 0 } := by
  have staged := sound.staged
  have record := sound.record
  rw [point] at staged
  have erased : s.erased = [] := sound.settled (by rw [point]; nofun)
  have later : s.unwritten = s.buffersToWrite := by
    unfold unwritten
    rw [point]
  obtain ⟨unique, made⟩ := sound.unique_of_sublist (List.take_sublist 2 s.buffersToWrite)
  -- Two buffers remain, as many as are taken back at the end of the loop.
  have two : (s.buffersToWrite.take 2).length = 2 := by
    rw [List.length_take]
    omega
  refine ⟨unique, made, sound.spare, sound.current, sound.full, ⟨⟨staged.1, fun empty => ?_,
    fun _ => Nat.le_of_eq two.symm⟩, Nat.zero_le _⟩, fun elsewhere => absurd rfl (elsewhere 0), ?_, sound.output⟩
  · have none_ : s.buffersToWrite.take 2 = [] := empty
    rw [none_] at two
    cases two
  -- What was to be written is now either to be written or erased.
  · have split : s.contents s.buffersToWrite = s.contents (s.buffersToWrite.take 2) ++
        s.contents (s.buffersToWrite.drop 2) := by
      rw [← contents_append, List.take_append_drop]
    rw [later, erased, split] at record
    change s.appended = (s.fates.map (·.pieces)).flatten ++ s.contents (s.buffersToWrite.take 2) ++
      s.contents (s.buffersToWrite.drop 2) ++ s.contents s.buffers_ ++
      s.contents s.currentBuffer_.toList
    simpa using record

/-- The next buffer is handed to the `LogFile`. -/
theorem writeNext (sound : s.Sound) {i : Nat} {buffer : BufferPtr} (point : s.point = .writing i)
    (next : s.buffersToWrite[i]? = some buffer) : Sound { s with
      output := s.output ++ (s.heap buffer).data
      fates := s.fates ++ [⟨(s.heap buffer).pieces, true⟩]
      point := .writing (i + 1) } := by
  have staged := sound.staged
  have record := sound.record
  rw [point] at staged
  obtain ⟨inside, _⟩ := List.getElem?_eq_some_iff.mp next
  -- The buffer moves from what is to be written to the fates.
  have later := contents_unwritten point next
  refine ⟨sound.unique, sound.made, sound.spare, sound.current, sound.full, ⟨staged.1, inside⟩,
    fun elsewhere => absurd rfl (elsewhere (i + 1)), ?_, ?_⟩
  · rw [later] at record
    change s.appended =
      ((s.fates ++ [(⟨(s.heap buffer).pieces, true⟩ : Fate)]).map (·.pieces)).flatten ++
      s.contents (s.buffersToWrite.drop (i + 1)) ++ s.erased.flatten ++ s.contents s.buffers_ ++
      s.contents s.currentBuffer_.toList
    simpa using record
  · change s.output ++ (s.heap buffer).data = _
    rw [sound.output]
    simp [FixedBuffer.data]

/-- The batch is done. -/
theorem writeEnd (sound : s.Sound) {i : Nat} (point : s.point = .writing i)
    (ended : s.buffersToWrite[i]? = none) : Sound { s with
      fates := s.fates ++ s.erased.map fun pieces => ⟨pieces, false⟩
      erased := []
      point := .resizing } := by
  have staged := sound.staged
  have record := sound.record
  rw [point] at staged
  -- At the end of the loop all is written and the erased buffers get their fate.
  have later := unwritten_ended point ended
  refine ⟨sound.unique, sound.made, sound.spare, sound.current, sound.full, staged.1,
    fun _ => rfl, ?_, ?_⟩
  · rw [later] at record
    change s.appended =
      ((s.fates ++ s.erased.map fun pieces => (⟨pieces, false⟩ : Fate)).map (·.pieces)).flatten ++
      s.contents [] ++ [] ++ s.contents s.buffers_ ++ s.contents s.currentBuffer_.toList
    simpa [contents, Function.comp_def] using record
  · change s.output = _
    rw [sound.output]
    simp [List.filter_map, Function.comp_def]

/-- Buffers of the batch beyond the first two are freed. -/
theorem resize (sound : s.Sound) (point : s.point = .resizing) : Sound { s with
    buffersToWrite := s.buffersToWrite.take 2
    point := .refilling1 } := by
  have staged := sound.staged
  have record := sound.record
  rw [point] at staged
  obtain ⟨later, erased⟩ := sound.quiet point (by simp)
  obtain ⟨unique, made⟩ := sound.unique_of_sublist (List.take_sublist 2 s.buffersToWrite)
  have length : (s.buffersToWrite.take 2).length = min 2 s.buffersToWrite.length := List.length_take
  have some_ := List.length_pos_iff.mpr staged.2.1
  refine ⟨unique, made, sound.spare, sound.current, sound.full, ⟨staged.1, ?_, fun gone => ?_⟩,
    fun _ => erased, ?_, sound.output⟩
  -- `refill1` finds a buffer, and `refill2` another one where both are missing.
  · apply List.length_pos_iff.mp
    dsimp only
    omega
  · have enough := staged.2.2 gone
    dsimp only
    omega
  · rw [later] at record
    exact record

/-- The batch is dropped. -/
theorem clear (sound : s.Sound) (point : s.point = .clearing) :
    Sound { s with buffersToWrite := [], point := .deciding } := by
  have staged := sound.staged
  have record := sound.record
  rw [point] at staged
  obtain ⟨later, erased⟩ := sound.quiet point (by simp)
  -- The references that are dropped do not refer to what is still in use.
  obtain ⟨unique, made⟩ := sound.unique_of_sublist (List.nil_sublist s.buffersToWrite)
  refine ⟨unique, made, sound.spare, sound.current, sound.full, ⟨staged.1, staged.2, rfl⟩,
    fun _ => erased, ?_, sound.output⟩
  rw [later] at record
  exact record

/-- The last buffer of the batch is reset and given to `newBuffer1` or `newBuffer2`. -/
theorem refill (sound : s.Sound) {buffer : BufferPtr} {newBuffer1 newBuffer2 : Option BufferPtr}
    {point : Point} (last : s.buffersToWrite.getLast? = some buffer)
    (before : s.point = .refilling1 ∨ s.point = .refilling2)
    (after : point = .refilling2 ∨ point = .clearing)
    (given : ∀ b, newBuffer1.toList.count b + newBuffer2.toList.count b =
      s.newBuffer1.toList.count b + s.newBuffer2.toList.count b + [buffer].count b)
    (staged : AsyncLogging.Staged { s with
      buffersToWrite := s.buffersToWrite.dropLast
      newBuffer1 := newBuffer1
      newBuffer2 := newBuffer2 } point) : Sound { s with
        heap := update s.heap buffer (s.heap buffer).reset
        buffersToWrite := s.buffersToWrite.dropLast
        newBuffer1 := newBuffer1
        newBuffer2 := newBuffer2
        point := point } := by
  have listed (b : BufferPtr) : s.buffersToWrite.count b =
      s.buffersToWrite.dropLast.count b + [buffer].count b := by
    rw [← List.count_append, List.dropLast_append_getLast? buffer last]
  obtain ⟨unique, made⟩ := sound.unique_of_count (s.currentBuffer_.toList ++ s.nextBuffer_.toList ++
    s.buffers_ ++ newBuffer1.toList ++ newBuffer2.toList ++ s.buffersToWrite.dropLast)
    (fun b => by
      have same := given b
      have split := listed b
      unfold AsyncLogging.refs
      simp only [List.count_append]
      omega)
  -- The buffer has been in the batch only, so the other ones keep what they hold.
  have once := List.nodup_iff_count_le_one.mp sound.unique buffer
  have batch := listed buffer
  unfold AsyncLogging.refs at once
  rw [List.count_singleton_self] at batch
  simp only [List.count_append] at once
  have same {buffers : List BufferPtr} (other : buffers.count buffer = 0) :
      AsyncLogging.contents { s with heap := update s.heap buffer (s.heap buffer).reset } buffers =
        s.contents buffers := contents_update (List.count_eq_zero.mp other) _
  obtain ⟨nothing, erased⟩ : s.unwritten = [] ∧ s.erased = [] := by
    rcases before with point | point
    · exact sound.quiet point (by simp)
    · exact sound.quiet point (by simp)
  constructor
  case unique => exact unique
  case made => exact made
  case spare =>
    intro b member
    by_cases is : b = buffer
    · subst is
      dsimp only
      rw [update_self]
      rfl
    · dsimp only at member ⊢
      rw [update_of_ne is]
      apply sound.spare
      have more := given b
      have found := List.count_pos_iff.mpr member
      rw [List.count_singleton, if_neg (by simpa using Ne.symm is)] at more
      apply List.count_pos_iff.mp
      simp only [List.count_append] at found ⊢
      omega
  case current => exact sound.current
  case full => exact sound.full
  case staged => rcases after with rfl | rfl <;> exact staged
  case settled => exact fun _ => erased
  case output => exact sound.output
  case record =>
    have record := sound.record
    rw [nothing, erased] at record
    have later : AsyncLogging.unwritten { s with
        heap := update s.heap buffer (s.heap buffer).reset
        buffersToWrite := s.buffersToWrite.dropLast
        newBuffer1 := newBuffer1
        newBuffer2 := newBuffer2
        point := point } = [] := by rcases after with rfl | rfl <;> rfl
    rw [later]
    change s.appended = (s.fates.map (·.pieces)).flatten ++ [] ++ s.erased.flatten ++
      AsyncLogging.contents { s with heap := update s.heap buffer (s.heap buffer).reset }
        s.buffers_ ++
      AsyncLogging.contents { s with heap := update s.heap buffer (s.heap buffer).reset }
        s.currentBuffer_.toList
    rw [same (by omega), same (by omega), erased]
    exact record

/-- One step of any thread. -/
theorem step (sound : s.Sound) {s' : AsyncLogging} {l : Label} (taken : s.step l = some s') :
    s'.Sound := by
  have staged := sound.staged
  cases step_steps taken with
  | append line taken => exact sound.append taken
  | stop =>
    exact ⟨sound.unique, sound.made, sound.spare, sound.current, sound.full, sound.staged,
      sound.settled, sound.record, sound.output⟩
  | check point =>
    rw [point] at staged
    obtain ⟨nothing, erased⟩ := sound.quiet point (by simp)
    split
    · exact sound.goOn staged nothing.symm fun _ => erased
    · exact sound.goOn staged nothing.symm fun _ => erased
  | wait point =>
    rw [point] at staged
    obtain ⟨nothing, erased⟩ := sound.quiet point (by simp)
    exact sound.goOn staged nothing.symm fun _ => erased
  | lock point taken =>
    rw [point] at staged
    exact sound.swap staged (.inl point) taken
  | wake point taken =>
    rw [point] at staged
    exact sound.swap staged (.inr point) taken
  | erase point large => exact sound.truncate point large
  | keep point =>
    rw [point] at staged
    refine sound.goOn ⟨staged, Nat.zero_le _⟩ ?_ fun elsewhere => absurd rfl (elsewhere 0)
    unfold unwritten
    rw [point]
    rfl
  | write point found => exact sound.writeNext point found
  | written point ended => exact sound.writeEnd point ended
  | resize point => exact sound.resize point
  | refill1 point gone last =>
    rw [point] at staged
    obtain ⟨_, some_, enough⟩ := staged
    refine sound.refill last (.inl point) (.inl rfl) (fun b => ?_) ⟨nofun, fun gone empty => ?_⟩
    · rw [gone]
      simp only [Option.toList_some, Option.toList_none, List.count_nil]
      omega
    · -- A batch that must give two buffers has two.
      have two := enough gone
      have shorter : s.buffersToWrite.dropLast.length = s.buffersToWrite.length - 1 :=
        List.length_dropLast
      have none_ : s.buffersToWrite.dropLast = [] := empty
      rw [none_, List.length_nil] at shorter
      omega
  | full1 point kept =>
    rw [point] at staged
    exact absurd staged.1 kept
  | refill2 point gone last =>
    rw [point] at staged
    refine sound.refill last (.inr point) (.inr rfl) (fun b => ?_) ⟨staged.1, nofun⟩
    rw [gone]
    simp only [Option.toList_some, Option.toList_none, List.count_nil]
    omega
  | full2 point kept =>
    rw [point] at staged
    obtain ⟨nothing, erased⟩ := sound.quiet point (by simp)
    exact sound.goOn ⟨staged.1, kept⟩ nothing.symm fun _ => erased
  | clear point => exact sound.clear point

end Sound

theorem sound {s : AsyncLogging} (reached : machine.Reachable s) : s.Sound :=
  Machine.invariant (by rintro s rfl; exact sound_new) (fun _ _ _ h => h.step) reached

/-! ### The assertions -/

/-! ### No line is lost -/

/-- No swapped batch exceeds 25 buffers. -/
def Modest (s : AsyncLogging) (l : Label) : Prop :=
  l = .truncate → s.buffersToWrite.length ≤ 25

instance (s : AsyncLogging) (l : Label) : Decidable (s.Modest l) :=
  inferInstanceAs (Decidable (l = .truncate → s.buffersToWrite.length ≤ 25))

/-- All that has left the front end is written or waits to be written. -/
def Complete (s : AsyncLogging) : Prop :=
  (∀ fate ∈ s.fates, fate.written = true) ∧ s.erased = []

namespace Complete

variable {s s' : AsyncLogging}

theorem append (complete : s.Complete) {line : Bytes} (taken : s.append line = some s') :
    s'.Complete := by
  cases append_appends taken with
  | _ => exact complete

theorem swap (complete : s.Complete) (taken : s.swap = some s') : s'.Complete := by
  obtain ⟨current, is, rfl⟩ := Option.map_eq_some_iff.mp taken
  exact complete

theorem step (complete : s.Complete) {l : Label} (modest : s.Modest l)
    (taken : s.step l = some s') : s'.Complete := by
  cases step_steps taken with
  | append line taken => exact complete.append taken
  | lock point taken => exact complete.swap taken
  | wake point taken => exact complete.swap taken
  -- Buffers are erased only from a batch that is not modest.
  | erase point large => exact absurd (modest rfl) (Nat.not_le_of_lt large)
  | write point found =>
    refine ⟨fun fate member => ?_, complete.2⟩
    rcases List.mem_append.mp member with member | member
    · exact complete.1 fate member
    · rw [List.mem_singleton.mp member]
  | written point ended =>
    refine ⟨fun fate member => ?_, rfl⟩
    rw [complete.2] at member
    exact complete.1 fate (by simpa using member)
  | _ => exact complete

end Complete

/-- Where every batch has been modest, so has every run. -/
theorem complete {s : AsyncLogging} (reached : machine.ReachableUnder Modest s) : s.Complete :=
  Machine.invariant_under (by rintro s rfl; exact ⟨nofun, rfl⟩) (fun _ _ _ h => h.step) reached

/-- The file holds whole lines of the log in their order. -/
theorem Sound.output_lines {s : AsyncLogging} (sound : s.Sound) :
    ∃ lines : List Bytes, lines.Sublist s.appended ∧ s.output = lines.flatten := by
  refine ⟨((s.fates.filter (·.written)).map (·.pieces)).flatten, ?_, ?_⟩
  · rw [sound.record]
    simp only [List.append_assoc]
    exact ((List.filter_sublist.map _).flatten).trans (List.sublist_append_left _ _)
  · rw [sound.output, List.flatten_flatten, List.map_map]
    rfl

/-- Where all batches are complete every byte is in one place. -/
theorem Sound.conserved {s : AsyncLogging} (sound : s.Sound) (complete : s.Complete) :
    s.output ++ (s.contents s.unwritten).flatten ++ (s.contents s.buffers_).flatten ++
      (s.contents s.currentBuffer_.toList).flatten = s.appended.flatten := by
  obtain ⟨written, erased⟩ := complete
  have all : s.fates.filter (·.written) = s.fates := List.filter_eq_self.mpr written
  rw [sound.output, sound.record, erased, all]
  simp only [List.flatten_append, List.flatten_nil, List.append_nil, List.flatten_flatten,
    List.map_map]
  rfl

/-- While every batch is modest, all that was appended is in the file, in the batch, in the full
buffers or in the current one, in this order. In any run it is whole buffers that the file lacks,
and it holds whole lines in their order. -/
theorem log_conservation :
    (∀ s, machine.ReachableUnder Modest s →
      s.output ++ (s.contents s.unwritten).flatten ++ (s.contents s.buffers_).flatten ++
        (s.contents s.currentBuffer_.toList).flatten = s.appended.flatten) ∧
    ∀ s, machine.Reachable s →
      s.appended = (s.fates.map (·.pieces)).flatten ++ s.contents s.unwritten ++
        s.erased.flatten ++ s.contents s.buffers_ ++ s.contents s.currentBuffer_.toList ∧
      s.output = ((s.fates.filter (·.written)).map (·.pieces.flatten)).flatten ∧
      ∃ lines : List Bytes, lines.Sublist s.appended ∧ s.output = lines.flatten := by
  constructor
  · intro s reached
    have sound : s.Sound :=
      Machine.invariant_under (by rintro s rfl; exact sound_new) (fun _ _ _ h _ => h.step) reached
    exact sound.conserved (complete reached)
  · intro s reached
    have sound := sound reached
    exact ⟨sound.record, sound.output, sound.output_lines⟩

/-- Two lines are in the file when a third one is appended. -/
def threeLines : List Label :=
  [.append ⟨[[97, 10]], by decide⟩, .check, .lock, .append ⟨[[98], [10]], by decide⟩, .wake,
    .append ⟨[[99, 10]], by decide⟩, .truncate, .write]

theorem log_conservation_threeLines : ∃ s, machine.exec new threeLines = some s ∧
    (s.output = [97, 10, 98, 10] ∧ s.appended = [[97, 10], [98, 10], [99, 10]] ∧
      s.contents s.currentBuffer_.toList = [[99, 10]]) ∧
    s.output ++ (s.contents s.unwritten).flatten ++ (s.contents s.buffers_).flatten ++
      (s.contents s.currentBuffer_.toList).flatten = s.appended.flatten ∧
    ∃ lines : List Bytes, lines.Sublist s.appended ∧ s.output = lines.flatten := by
  obtain ⟨s, run, stands⟩ := Machine.exec_any (M := machine)
    (fun s => s.output = [97, 10, 98, 10] ∧ s.appended = [[97, 10], [98, 10], [99, 10]] ∧
      s.contents s.currentBuffer_.toList = [[99, 10]]) new threeLines (by decide)
  have modest : machine.Along (fun s l _ => Modest s l) new threeLines := by decide
  have any : machine.Along (fun _ _ _ => True) new threeLines := by decide
  have start {guard} : machine.ReachableUnder guard new := .init rfl
  exact ⟨s, run, stands, log_conservation.1 s (Machine.reachable_exec start modest run),
    (log_conservation.2 s (Machine.reachable_exec start any run)).2.2⟩

end AsyncLogging

end LightAgent

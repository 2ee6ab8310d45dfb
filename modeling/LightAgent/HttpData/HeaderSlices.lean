import LightAgent.HttpData.HeaderBlock
import LightAgent.HttpData.Rejections

/-!
# Where header slices lie

The four places of a header line are locals of `parseHeaders`, and its state is a member. A call
that goes on with a line which an earlier call has begun has no place for the beginning of it.
-/
namespace LightAgent

open Library

attribute [local irreducible] toInt narrow

/-- The scans at which `H_CR` builds a key and a value. -/
def builds (outside : Int → UInt8) (str : Bytes) : Nat → Bytes → HeaderScan → List HeaderScan
  | _, [], _ => []
  | i, c :: cs, st =>
    if st.notFinish then
      (if st.hState_ = .cr ∧ c = LF then [st] else []) ++
        match scanByte outside str i c st with
        | .error _ => []
        | .ok st' => builds outside str (i + 1) cs st'
    else []

/-- The ranges that are built lie in a buffer of this size. -/
def HeaderScan.SliceInside (st : HeaderScan) (size : Nat) : Prop :=
  0 ≤ st.key_start ∧ st.key_start < st.key_end ∧ st.key_end < st.value_start ∧
    st.value_start < st.value_end ∧ st.value_end ≤ size

instance (st : HeaderScan) (size : Nat) : Decidable (st.SliceInside size) :=
  inferInstanceAs (Decidable (_ ∧ _))

/-- The strings that a call of `parseHeaders` builds are made of bytes of the buffer. -/
def HttpData.SlicesInside (outside : Int → UInt8) (h : HttpData) : Prop :=
  ∀ st ∈ builds outside h.inBuffer_ 0 h.inBuffer_ h.beginScan, st.SliceInside h.inBuffer_.length

instance (outside : Int → UInt8) (h : HttpData) : Decidable (h.SlicesInside outside) :=
  inferInstanceAs (Decidable (∀ st ∈ _, _))

variable {outside : Int → UInt8} {str : Bytes}

theorem builds_stopped {i : Nat} {cs : Bytes} {st : HeaderScan} (stopped : st.notFinish = false) :
    builds outside str i cs st = [] := by
  cases cs with
  | nil => rfl
  | cons c cs => simp [builds, stopped]

theorem mem_builds_cons {i : Nat} {c : UInt8} {cs : Bytes} {st st' : HeaderScan}
    (going : st.notFinish = true) : st' ∈ builds outside str i (c :: cs) st ↔
      st' = st ∧ st.hState_ = .cr ∧ c = LF ∨
        ∃ next, scanByte outside str i c st = .ok next ∧
          st' ∈ builds outside str (i + 1) cs next := by
  rw [builds, going, if_pos rfl, List.mem_append]
  constructor
  · rintro (here | later)
    · split at here
      next built => exact .inl ⟨List.mem_singleton.mp here, built⟩
      next => cases here
    · cases next : scanByte outside str i c st with
      | error st₁ => rw [next] at later; cases later
      | ok st₁ => rw [next] at later; exact .inr ⟨st₁, rfl, later⟩
  · rintro (⟨rfl, built⟩ | ⟨next, step, later⟩)
    · rw [if_pos built]
      exact .inl List.mem_cons_self
    · rw [step]
      exact .inr later

/-- With the places in range, all that is built lies in the buffer. -/
theorem builds_inside {cs : Bytes} {i : Nat} {st : HeaderScan}
    (small : reach outside str i cs st ≤ 2 ^ 31) (place : str.length = i + cs.length)
    (inside : InRange i st) :
    ∀ st' ∈ builds outside str i cs st, st'.SliceInside str.length := by
  induction cs generalizing i st with
  | nil =>
    intro st' member
    cases member
  | cons c cs ih =>
    intro st' member
    rw [List.length_cons] at place
    cases going : st.notFinish with
    | false =>
      rw [builds_stopped going] at member
      cases member
    | true =>
      rw [mem_builds_cons going] at member
      rcases member with ⟨rfl, state, _⟩ | ⟨next, step, later⟩
      -- The slices are built in `H_CR`, where all four places are set and in their order.
      · unfold InRange at inside
        rw [state] at inside
        dsimp only at inside
        unfold HeaderScan.SliceInside
        omega
      · rw [reach_cons going step] at small
        have here : i < 2 ^ 31 := Nat.lt_of_lt_of_le (Nat.lt_succ_self i) (Nat.le_trans le_reach small)
        exact ih small (by omega) (scanByte_inRange here inside step) st' later

/-- In a line something is built only where its end is reached. -/
theorem passes_of_builds {cs : Bytes} {i : Nat} {st st' : HeaderScan} (inside : st.InLine)
    (built : st' ∈ builds outside str i cs st) : Passes outside str i cs st := by
  induction cs generalizing i st with
  | nil => cases built
  | cons c cs ih =>
    cases going : st.notFinish with
    | false => rw [builds_stopped going] at built; cases built
    | true =>
      rw [mem_builds_cons going] at built
      rcases built with ⟨_, state, rfl⟩ | ⟨next, step, later⟩
      · exact .here state
      -- What is built later is built in this line first, so its end is passed.
      · by_cases last : st.hState_ = .cr
        · rw [byte_of_cr last step]
          exact .here last
        · exact .step last step (ih (scanByte_inLine inside last step).1 later)

/-- Where the end of a line is reached its slices are built, with the beginning there was. -/
theorem Passes.builds {cs : Bytes} {i : Nat} {st : HeaderScan}
    (passes : Passes outside str i cs st) (inside : st.InLine) (going : st.notFinish = true) :
    ∃ st' ∈ builds outside str i cs st, st'.key_start = st.key_start := by
  induction passes with
  | here state => exact ⟨_, (mem_builds_cons going).mpr (.inl ⟨rfl, state, rfl⟩), rfl⟩
  | step before next _ ih =>
    obtain ⟨inside', same, going'⟩ := scanByte_inLine inside before next
    obtain ⟨st', member, start⟩ := ih inside' (going'.trans going)
    exact ⟨st', (mem_builds_cons going).mpr (.inr ⟨_, next, member⟩), start.trans same⟩

/-! ### A call that goes on with a line -/

/-- What is missing of a header line that the scan is in. -/
inductive RestOfLine : ParseState → Bytes → Prop
  | name {name value : Bytes} (b : UInt8) : (∀ d ∈ name, d ≠ 58 ∧ d ≠ LF ∧ d ≠ CR) → CR ∉ value →
      value.length ≤ 255 → RestOfLine .key (name ++ 58 :: 32 :: b :: (value ++ CRLF))
  | blank {value : Bytes} (b : UInt8) : CR ∉ value → value.length ≤ 255 →
      RestOfLine .colon (32 :: b :: (value ++ CRLF))
  | first {value : Bytes} (b : UInt8) : CR ∉ value → value.length ≤ 255 →
      RestOfLine .spacesAfterColon (b :: (value ++ CRLF))
  | value {value : Bytes} : CR ∉ value → value.length ≤ 255 → RestOfLine .value (value ++ CRLF)
  | last : RestOfLine .cr [LF]

/-- The buffer begins with the rest of a line, within 2^31 bytes. -/
def HttpData.BringsRest (h : HttpData) : Prop :=
  ∃ line rest, h.inBuffer_ = line ++ rest ∧ line.length ≤ 2 ^ 31 ∧ RestOfLine h.hState_ line

theorem Passes.of_value {value : Bytes} {i : Nat} {st : HeaderScan} (state : st.hState_ = .value)
    (whole : CR ∉ value)
    (near : ∀ j < value.length, (((i + j : Nat) : Int) - st.value_start) % 2 ^ 64 ≤ 255)
    (positive : 0 < narrow (toInt (i + value.length) - st.value_start)) (rest : Bytes) :
    Passes outside str i (value ++ (CRLF ++ rest)) st := by
  have before : st.hState_ ≠ .cr := by rw [state]; decide
  -- Up to the CR each byte is near enough, then the end of the value is behind its beginning.
  induction value generalizing i with
  | nil =>
    have feed : scanByte outside str i CR st = .ok (st.ended i) := by
      rw [scanByte_end state]
      exact if_neg (Int.not_le.mpr positive)
    exact .step before feed (.here rfl)
  | cons c value ih =>
    obtain ⟨other, whole⟩ := List.ne_and_not_mem_of_not_mem_cons whole
    have here := near 0 (Nat.succ_pos _)
    refine .step before (scanByte_inValue state other.symm here) (ih whole ?_ ?_)
    · intro j inside
      have step := near (j + 1) (Nat.succ_lt_succ inside)
      rwa [← Nat.add_assoc, Nat.add_right_comm] at step
    · rwa [Nat.add_right_comm, Nat.add_assoc, ← List.length_cons (a := c)]

theorem Passes.of_first {value : Bytes} {i : Nat} {st : HeaderScan} (b : UInt8)
    (state : st.hState_ = .spacesAfterColon) (whole : CR ∉ value) (short : value.length ≤ 255)
    (small : i + 1 + value.length < 2 ^ 31) (rest : Bytes) :
    Passes outside str i (b :: (value ++ (CRLF ++ rest))) st := by
  refine .step (by rw [state]; decide) (scanByte_first state b) (.of_value rfl whole ?_ ?_ rest)
  · intro j inside
    dsimp only
    rw [toInt_of_lt (by omega)]
    omega
  · dsimp only
    rw [toInt_of_lt small, toInt_of_lt (by omega), narrow_of_fits (by omega) (by omega)]
    omega

theorem Passes.of_blank {value : Bytes} {i : Nat} {st : HeaderScan} (b : UInt8)
    (state : st.hState_ = .colon) (whole : CR ∉ value) (short : value.length ≤ 255)
    (small : i + 2 + value.length < 2 ^ 31) (rest : Bytes) :
    Passes outside str i (32 :: b :: (value ++ (CRLF ++ rest))) st :=
  .step (by rw [state]; decide) (scanByte_blank state) (.of_first b rfl whole short small rest)

theorem Passes.of_name {name value : Bytes} {i : Nat} {st : HeaderScan} (b : UInt8)
    (state : st.hState_ = .key) (start : st.key_start = -1)
    (plain : ∀ d ∈ name, d ≠ 58 ∧ d ≠ LF ∧ d ≠ CR) (whole : CR ∉ value)
    (short : value.length ≤ 255) (small : i + name.length + 3 + value.length < 2 ^ 31)
    (rest : Bytes) :
    Passes outside str i (name ++ 58 :: 32 :: b :: (value ++ (CRLF ++ rest))) st := by
  have before : st.hState_ ≠ .cr := by rw [state]; decide
  -- The key begins before the buffer, so the test of its length passes at every colon.
  induction name generalizing i with
  | nil =>
    rw [List.length_nil] at small
    have colon : scanByte outside str i 58 st = .ok (st.named i) := by
      rw [scanByte_colon state, toInt_of_lt (by omega), start,
        narrow_of_fits (by omega) (by omega), if_neg (by omega)]
    exact .step before colon (.of_blank b rfl whole short (by omega) rest)
  | cons d name ih =>
    rw [List.length_cons] at small
    refine .step before (scanByte_inName state (plain d List.mem_cons_self)) (ih ?_ (by omega))
    exact fun d member => plain d (List.mem_cons_of_mem _ member)

namespace HttpData

theorem begin_inLine {h : HttpData} : h.beginScan.InLine ↔ h.hState_ = .key ∨ h.hState_ = .colon ∨
    h.hState_ = .spacesAfterColon ∨ h.hState_ = .value ∨ h.hState_ = .cr := Iff.rfl

/-- Of a value that is counted from the place before it, at most 255 bytes are taken. -/
theorem value_short {value : Bytes} {i : Nat} {start : Int} (place : start + 1 = i)
    (near : ∀ j < value.length, (((i + j : Nat) : Int) - start) % 2 ^ 64 ≤ 255) :
    value.length ≤ 255 := by
  by_contra long
  -- The byte at this place would be 256 bytes behind the beginning.
  have far := near 255 (by omega)
  omega

/-- How far the loop of a call goes in the buffer. -/
def reach (outside : Int → UInt8) (h : HttpData) : Nat :=
  LightAgent.reach outside h.inBuffer_ 0 h.inBuffer_ h.beginScan

theorem reach_le {h : HttpData} : h.reach outside ≤ h.inBuffer_.length := by
  have bound : h.reach outside ≤ 0 + h.inBuffer_.length := LightAgent.reach_le
  omega

/-- From places that are not set, the end of the line is reached where the rest of it is there. -/
theorem passes_iff {h : HttpData} (small : h.reach outside ≤ 2 ^ 31)
    (inside : h.beginScan.InLine) :
    Passes outside h.inBuffer_ 0 h.inBuffer_ h.beginScan ↔ h.BringsRest := by
  have begins : h.beginScan.hState_ = h.hState_ := rfl
  have ends (line : Bytes) : (line ++ CRLF).length = line.length + 2 := by simp [CRLF]
  unfold reach at small
  constructor
  · intro passes
    -- One case a state in a line; what is read from it on is the rest of the line from there.
    rcases inside with state | state | state | state | state
    · obtain ⟨name, b, value, rest, text, plain, whole, near, far⟩ := passes.name state rfl
      refine ⟨name ++ 58 :: 32 :: b :: (value ++ CRLF), rest, by rw [text]; simp, ?_, ?_⟩
      · simp only [List.length_append, List.length_cons, ends]
        omega
      · rw [← begins, state]
        exact .name b plain whole (value_short (by rw [toInt_of_lt (by omega)]; omega) near)
    · obtain ⟨b, value, rest, text, whole, near, far⟩ := passes.blank state rfl
      refine ⟨32 :: b :: (value ++ CRLF), rest, by rw [text]; simp, ?_, ?_⟩
      · simp only [List.length_cons, ends]
        omega
      · rw [← begins, state]
        exact .blank b whole (value_short (by rw [toInt_of_lt (by omega)]; omega) near)
    · obtain ⟨b, value, rest, text, whole, near, far⟩ := passes.first state rfl
      refine ⟨b :: (value ++ CRLF), rest, by rw [text]; simp, ?_, ?_⟩
      · simp only [List.length_cons, ends]
        omega
      · rw [← begins, state]
        exact .first b whole (value_short (by rw [toInt_of_lt (by omega)]; omega) near)
    · obtain ⟨value, rest, text, whole, near, far⟩ := passes.value state rfl
      refine ⟨value ++ CRLF, rest, by rw [text]; simp, ?_, ?_⟩
      · rw [ends]
        omega
      · rw [← begins, state]
        exact .value whole (value_short (by change (-1 : Int) + 1 = _; omega) near)
    · obtain ⟨rest, text, far⟩ := passes.cr state rfl
      refine ⟨[LF], rest, text, by decide, ?_⟩
      rw [← begins, state]
      exact .last
  · rintro ⟨line, rest, text, fits, missing⟩
    have passes (str : Bytes) : Passes outside str 0 (line ++ rest) h.beginScan := by
      generalize start : h.hState_ = state at missing
      rw [← begins] at start
      cases missing with
      | name b plain whole short =>
        simp only [List.length_append, List.length_cons, ends] at fits
        simpa using Passes.of_name b start rfl plain whole short (by omega) rest
      | blank b whole short =>
        simp only [List.length_cons, ends] at fits
        simpa using Passes.of_blank b start whole short (by omega) rest
      | first b whole short =>
        simp only [List.length_cons, ends] at fits
        simpa using Passes.of_first b start whole short (by omega) rest
      | value whole short =>
        rename_i value
        rw [ends] at fits
        have near : ∀ j < value.length,
            (((0 + j : Nat) : Int) - h.beginScan.value_start) % 2 ^ 64 ≤ 255 := by
          intro j inside
          change (((0 + j : Nat) : Int) - (-1)) % 2 ^ 64 ≤ 255
          omega
        have positive : 0 < narrow (toInt (0 + value.length) - h.beginScan.value_start) := by
          change 0 < narrow (toInt (0 + value.length) - (-1))
          rw [toInt_of_lt (by omega), narrow_of_fits (by omega) (by omega)]
          omega
        simpa using Passes.of_value start whole near positive rest
      | last => exact .here start
    rw [text]
    exact passes (line ++ rest)

/-- Up to 2^31 bytes of the loop, the slices of a call lie in the buffer exactly when it does not
bring the rest of a line that an earlier call has begun. -/
theorem slicesInside_iff {h : HttpData} (small : h.reach outside ≤ 2 ^ 31) :
    h.SlicesInside outside ↔ ¬h.BringsRest := by
  by_cases inside : h.beginScan.InLine
  · rw [← passes_iff small inside]
    constructor
    · intro slices passes
      obtain ⟨st, built, start⟩ := passes.builds inside rfl
      -- What is built has the beginning of the call, which is -1.
      have low : 0 ≤ st.key_start := (slices st built).1
      rw [start] at low
      change (0 : Int) ≤ -1 at low
      omega
    · intro stays st built
      exact absurd (passes_of_builds inside built) stays
  · have whole : ¬h.BringsRest := by
      rintro ⟨line, _, _, _, missing⟩
      rw [begin_inLine] at inside
      generalize h.hState_ = state at missing inside
      cases missing <;> simp at inside
    refine iff_of_true ?_ whole
    by_cases ended : h.hState_ = .endLf
    · -- Such a scan stops at once.
      intro st built
      cases buffer : h.inBuffer_ with
      | nil => rw [buffer] at built; cases built
      | cons c cs =>
        rw [buffer, mem_builds_cons rfl] at built
        rcases built with ⟨_, state, _⟩ | ⟨next, step, later⟩
        · cases ended.symm.trans state
        · unfold scanByte at step
          have begins : h.beginScan.hState_ = .endLf := ended
          simp only [begins] at step
          cases step
          rw [builds_stopped rfl] at later
          cases later
    -- Between two lines the places are set before they are used.
    · apply builds_inside small (by simp)
      unfold InRange
      have begins : h.beginScan.hState_ = h.hState_ := rfl
      rw [begin_inLine] at inside
      rw [begins]
      cases state : h.hState_ <;> simp_all

end HttpData

/-! ### Along a run -/

namespace Stream

/-- Where a block calls `parseHeaders`, it does so on such a connection. -/
def CallsOn (P : HttpData → Prop) (s : Stream) : Prop :=
  s.point = .block → ∀ h ∈ s.conn.headersCall, P h

instance (P : HttpData → Prop) [DecidablePred P] (s : Stream) : Decidable (s.CallsOn P) :=
  inferInstanceAs (Decidable (_ → ∀ h ∈ _, _))

end Stream

/-- Along a run of a connection, the strings that `parseHeaders` builds for a header line are made
of bytes of the buffer, if no call of it goes further than 2^31 bytes or brings the rest of a line
that an earlier call has begun; and up to 2^31 bytes, only then. -/
theorem header_slices_inside {w : World} {s : Stream} {ls : List StreamLabel} :
    ((Stream.machine w).Along (fun s _ _ => s.CallsOn fun h =>
        h.reach w.outside ≤ 2 ^ 31 ∧ ¬h.BringsRest) s ls →
      (Stream.machine w).Along (fun s _ _ => s.CallsOn (·.SlicesInside w.outside)) s ls) ∧
    ((Stream.machine w).Along (fun s _ _ => s.CallsOn (·.reach w.outside ≤ 2 ^ 31)) s ls →
      (Stream.machine w).Along (fun s _ _ => s.CallsOn (·.SlicesInside w.outside)) s ls →
      (Stream.machine w).Along (fun s _ _ => s.CallsOn (¬·.BringsRest)) s ls) := by
  constructor
  · apply Machine.along_mono
    intro s _ _ calls point h call
    obtain ⟨small, whole⟩ := calls point h call
    exact (HttpData.slicesInside_iff small).mpr whole
  · intro small inside
    have both := Machine.along_and.mpr ⟨small, inside⟩
    apply Machine.along_mono _ both
    intro s _ _ calls point h call
    exact (HttpData.slicesInside_iff (calls.1 point h call)).mp (calls.2 point h call)

/-- The second chunk begins with a line. -/
theorem header_slices_inside_lines : (Stream.machine .bare).Along
    (fun s _ _ => s.CallsOn (·.SlicesInside World.bare.outside)) .sample
    (delivery (bytes "GET /hello HTTP/1.1\r\nA: b\r\n") ++ delivery (bytes "C: d\r\n\r\n")) := by
  refine header_slices_inside.1 ?_
  have calls : (Stream.machine .bare).Along (fun s _ _ => s.CallsOn fun h =>
      h.inBuffer_.length ≤ 2 ^ 31 ∧ (h.hState_ = .start ∨ h.hState_ = .lf)) .sample
      (delivery (bytes "GET /hello HTTP/1.1\r\nA: b\r\n") ++ delivery (bytes "C: d\r\n\r\n")) := by
    decide +kernel
  apply Machine.along_mono _ calls
  intro s _ _ called point h call
  obtain ⟨small, state⟩ := called point h call
  refine ⟨Nat.le_trans HttpData.reach_le small, ?_⟩
  rintro ⟨line, _, _, _, missing⟩
  rcases state with state | state
  all_goals
    rw [state] at missing
    cases missing

/-- The second chunk begins behind the name of a header: the key begins before the buffer. -/
theorem slice_before_buffer : ¬(Stream.machine .bare).Along
    (fun s _ _ => s.CallsOn (·.SlicesInside World.bare.outside)) .sample
    (delivery (bytes "GET /hello HTTP/1.1\r\nA") ++ delivery (bytes ": b\r\n\r\n")) := by
  decide +kernel

end LightAgent

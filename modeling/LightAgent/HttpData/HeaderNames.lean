import LightAgent.HttpData.Analysis
import LightAgent.HttpData.HeaderFields
import Mathlib.Data.List.Forall2

/-!
# Header names up to letter case

The fields of a block are kept by name as it is written, and looked up in lower case. Of names
that differ in case the least in byte order is met, and of a name that comes again the last value.
-/
namespace LightAgent

open Library

/-! ### The same fields in another case -/

/-- Only the letter case of the names differs. -/
def SameButCase (fields others : List (Bytes × Bytes)) : Prop :=
  List.Forall₂ (fun e f => toLowerCopy e.1 = toLowerCopy f.1 ∧ e.2 = f.2) fields others

/-- Below the letters `tolower` changes nothing, and nothing becomes such a byte. -/
theorem tolower_eq_iff {c d : UInt8} (low : d < 65) : tolower c = d ↔ c = d := by
  unfold tolower
  split
  next letter =>
    constructor
    · rintro rfl
      rw [UInt8.lt_iff_toNat_lt] at low
      rw [UInt8.le_iff_toNat_le, UInt8.le_iff_toNat_le] at letter
      rw [UInt8.toNat_add] at low
      simp at low letter
      omega
    · rintro rfl
      exact absurd low (UInt8.not_lt.mpr letter.1)
  next => rfl

theorem mem_toLowerCopy_iff {s : Bytes} {d : UInt8} (low : d < 65) : d ∈ toLowerCopy s ↔ d ∈ s := by
  unfold toLowerCopy
  simp [tolower_eq_iff low]

/-- A line that is scanned is scanned in any letter case. -/
theorem Scannable.inCase {e f : Bytes × Bytes} (scannable : Scannable e)
    (name : toLowerCopy e.1 = toLowerCopy f.1) (value : e.2 = f.2) : Scannable f := by
  obtain ⟨byte, plain, whole⟩ := scannable
  rename_i c b key text
  obtain ⟨name', value'⟩ := f
  cases value
  cases name' with
  | nil => cases name
  | cons c' key' =>
    obtain ⟨first, rest⟩ : tolower c = tolower c' ∧ toLowerCopy key = toLowerCopy key' :=
      List.cons_eq_cons.mp name
    refine .line (fun same => ?_) (fun d member => ?_) whole
    · rw [same] at first
      exact byte ((tolower_eq_iff (by decide)).mp first)
    · have absent {x : UInt8} (low : x < 65) (none : x ∉ key) : x ∉ key' := by
        rwa [← mem_toLowerCopy_iff low, ← rest, mem_toLowerCopy_iff low]
      refine ⟨?_, ?_, ?_⟩ <;> rintro rfl
      · exact absent (by decide) (fun colon => (plain _ colon).1 rfl) member
      · exact absent (by decide) (fun line => (plain _ line).2.1 rfl) member
      · exact absent (by decide) (fun feed => (plain _ feed).2.2 rfl) member

theorem toLowerCopy_idem (s : Bytes) : toLowerCopy (toLowerCopy s) = toLowerCopy s := by
  have byte (c : UInt8) : tolower (tolower c) = tolower c := by
    by_cases letter : 65 ≤ c ∧ c ≤ 90
    · have moved : tolower c = c + 32 := if_pos letter
      rw [moved]
      refine if_neg fun again => ?_
      simp only [UInt8.le_iff_toNat_le, UInt8.toNat_add, UInt8.reduceToNat] at letter again
      omega
    · have stays : tolower c = c := if_neg letter
      rw [stays, stays]
  unfold toLowerCopy
  rw [List.map_map]
  exact List.map_congr_left fun c _ => byte c

theorem toLowerCopy_length (s : Bytes) : (toLowerCopy s).length = s.length := List.length_map _

theorem SameButCase.headerLines_length {fields others : List (Bytes × Bytes)}
    (same : SameButCase fields others) :
    (headerLines others).length = (headerLines fields).length := by
  induction same with
  | nil => rfl
  | cons here _ ih =>
    have name := congrArg List.length here.1
    rw [toLowerCopy_length, toLowerCopy_length] at name
    rw [length_headerLines_cons, length_headerLines_cons, ih, headerLine_length,
      headerLine_length, name, here.2]

theorem SameButCase.exists_left {fields others : List (Bytes × Bytes)}
    (same : SameButCase fields others) {f : Bytes × Bytes} (member : f ∈ others) :
    ∃ e ∈ fields, toLowerCopy e.1 = toLowerCopy f.1 ∧ e.2 = f.2 := by
  induction same with
  | nil => cases member
  | @cons e g _ _ here _ ih =>
    rcases List.mem_cons.mp member with rfl | member
    · exact ⟨e, List.mem_cons_self, here⟩
    · obtain ⟨e', inside, alike⟩ := ih member
      exact ⟨e', List.mem_cons_of_mem _ inside, alike⟩

theorem SameButCase.symm {fields others : List (Bytes × Bytes)}
    (same : SameButCase fields others) : SameButCase others fields := by
  induction same with
  | nil => exact .nil
  | cons here _ ih => exact .cons ⟨here.1.symm, here.2.symm⟩ ih

theorem SameButCase.scannable {fields others : List (Bytes × Bytes)}
    (same : SameButCase fields others) (scannable : ∀ e ∈ fields, Scannable e) :
    ∀ f ∈ others, Scannable f := by
  intro f member
  obtain ⟨e, inside, name, value⟩ := same.exists_left member
  exact (scannable e inside).inCase name value

/-- The first byte of the lines is a line break in no letter case. -/
theorem SameButCase.first {fields others : List (Bytes × Bytes)}
    (same : SameButCase fields others)
    (first : ∀ c, (headerLines fields).head? = some c → c ≠ LF ∧ c ≠ CR) :
    ∀ c, (headerLines others).head? = some c → c ≠ LF ∧ c ≠ CR := by
  intro c' begins
  cases same with
  | nil => cases begins
  | @cons e f _ _ here _ =>
    obtain ⟨key, text⟩ := e
    obtain ⟨key', text'⟩ := f
    cases key' with
    | nil =>
      cases begins
      decide
    | cons d' key' =>
      cases begins
      cases key with
      | nil => cases here.1
      | cons d key =>
        have byte : tolower d = tolower c' := (List.cons_eq_cons.mp here.1).1
        obtain ⟨line, feed⟩ := first d rfl
        constructor <;> rintro rfl
        · exact line ((tolower_eq_iff (by decide)).mp byte)
        · exact feed ((tolower_eq_iff (by decide)).mp byte)

/-! ### Blocks that are accepted -/

/-- A call on a fresh block accepts it, and these are the fields it assigns. -/
structure Accepts (outside : Int → UInt8) (h : HttpData) (fields : List (Bytes × Bytes)) :
    Prop where
  start : h.hState_ = .start
  empty : h.headers_ = .empty
  success : (h.parseHeaders outside).2 = .success
  fields : ∃ breaks lines body, HeaderText h.inBuffer_ breaks lines body ∧
    fields = slices outside h.inBuffer_ breaks.length lines

theorem Accepts.measured {outside : Int → UInt8} {h : HttpData} {fields lines : List (Bytes × Bytes)}
    {breaks body : Bytes} (accepts : Accepts outside h fields)
    (text : HeaderText h.inBuffer_ breaks lines body) : AllMeasured breaks.length lines :=
  HttpData.measured_of_success accepts.start text accepts.success

theorem Accepts.headers {outside : Int → UInt8} {h : HttpData} {fields : List (Bytes × Bytes)}
    (accepts : Accepts outside h fields) :
    (h.parseHeaders outside).1.headers_ = SortedMap.empty.assignAll fields := by
  obtain ⟨breaks, lines, body, text, rfl⟩ := accepts.fields
  rw [HttpData.parseHeaders_text outside accepts.start text (accepts.measured text), accepts.empty]

/-- Lines within 2^31 bytes, with values that are not too long, are accepted as they are. -/
theorem accepts_of_text (outside : Int → UInt8) {h : HttpData} {fields : List (Bytes × Bytes)}
    {breaks body : Bytes} (start : h.hState_ = .start) (empty : h.headers_ = .empty)
    (text : HeaderText h.inBuffer_ breaks fields body)
    (short : ∀ field ∈ fields, field.2.length ≤ 256)
    (small : breaks.length + (headerLines fields).length ≤ 2 ^ 31 + 1) :
    Accepts outside h fields := by
  have measured : AllMeasured breaks.length fields := by
    refine allMeasured_of_small (fun field member => ?_) small
    have brief := short field member
    obtain ⟨_, _, _⟩ := text.scannable field member
    exact ⟨List.cons_ne_nil _ _, List.cons_ne_nil _ _, brief⟩
  refine ⟨start, empty, ?_, breaks, fields, body, text, ?_⟩
  · rw [HttpData.parseHeaders_text outside start text measured]
  · have here : h.inBuffer_.drop breaks.length = headerLines fields ++ (CRLF ++ body) := by
      rw [text.text, List.drop_left]
    exact (slices_of_small outside here small).symm

/-- What a buffer of at most 2^31 bytes gives rise to can be sent in any letter case. -/
theorem Accepts.inCase {outside : Int → UInt8} {h : HttpData} {fields others : List (Bytes × Bytes)}
    (accepts : Accepts outside h fields) (small : h.inBuffer_.length ≤ 2 ^ 31)
    (same : SameButCase fields others) : ∃ k, Accepts outside k others := by
  obtain ⟨breaks, lines, body, text, rfl⟩ := accepts.fields
  have length : breaks.length + (headerLines lines).length ≤ 2 ^ 31 + 1 := by
    rw [text.text, List.length_append, List.length_append] at small
    omega
  have here : h.inBuffer_.drop breaks.length = headerLines lines ++ (CRLF ++ body) := by
    rw [text.text, List.drop_left]
  have cut := slices_of_small outside here length
  rw [cut] at same
  have text' : HeaderText (breaks ++ (headerLines others ++ (CRLF ++ body))) breaks others body := by
    refine ⟨rfl, text.breaks, ?_, same.first text.first, same.scannable text.scannable⟩
    rintro rfl
    cases same
    exact text.nonempty rfl
  refine ⟨{ h with inBuffer_ := breaks ++ (headerLines others ++ (CRLF ++ body)) },
    accepts_of_text outside accepts.start accepts.empty text' ?_ ?_⟩
  · intro f member
    obtain ⟨e, inside, _, value⟩ := same.exists_left member
    rw [← value]
    exact (accepts.measured text).value_length e inside
  · rw [same.headerLines_length]
    exact length

/-! ### Lookups -/

/-- The value that is met for a name is that of a field of this name, up to case. -/
theorem lookup_assignAll {fields : List (Bytes × Bytes)} {name value : Bytes}
    (found : HeaderMap.lookup (SortedMap.empty.assignAll fields) name = some value) :
    ∃ e ∈ fields, toLowerCopy e.1 = name ∧ e.2 = value := by
  obtain ⟨e, first, rfl⟩ := Option.map_eq_some_iff.mp found
  have kind := List.find?_some first
  have last := (SortedMap.mem_assignAll_empty fields e.1 e.2).mp (List.mem_of_find?_eq_some first)
  exact ⟨e, last.mem, of_decide_eq_true kind, rfl⟩

/-- A name that comes is found. -/
theorem lookup_assignAll_none {fields : List (Bytes × Bytes)} {name : Bytes}
    (none : HeaderMap.lookup (SortedMap.empty.assignAll fields) name = none) :
    ∀ e ∈ fields, toLowerCopy e.1 ≠ name := by
  intro e member same
  obtain ⟨value, last⟩ := exists_lastValue ⟨e, member, rfl⟩
  have held := (SortedMap.mem_assignAll_empty fields e.1 value).mpr last
  have other := List.find?_eq_none.mp (Option.map_eq_none_iff.mp none) _ held
  exact other (decide_eq_true same)

/-- The fields of a name, up to case, have values that read the same. -/
def ReadAlike {α : Type} (name : Bytes) (read : Bytes → α) (fields : List (Bytes × Bytes)) : Prop :=
  ∀ e ∈ fields, ∀ f ∈ fields, toLowerCopy e.1 = name → toLowerCopy f.1 = name → read e.2 = read f.2

theorem ReadAlike.lookup {α : Type} {name : Bytes} {read : Bytes → α}
    {fields others : List (Bytes × Bytes)} (alike : ReadAlike name read fields)
    (same : SameButCase fields others) :
    (HeaderMap.lookup (SortedMap.empty.assignAll fields) name).map read =
      (HeaderMap.lookup (SortedMap.empty.assignAll others) name).map read := by
  cases found : HeaderMap.lookup (SortedMap.empty.assignAll fields) name with
  | none =>
    cases found' : HeaderMap.lookup (SortedMap.empty.assignAll others) name with
    | none => rfl
    | some value =>
      obtain ⟨f, member, kind, _⟩ := lookup_assignAll found'
      obtain ⟨e, inside, case, _⟩ := same.exists_left member
      exact absurd (case.trans kind) (lookup_assignAll_none found e inside)
  | some value =>
    obtain ⟨e, inside, kind, rfl⟩ := lookup_assignAll found
    cases found' : HeaderMap.lookup (SortedMap.empty.assignAll others) name with
    | none =>
      obtain ⟨f, member, case, _⟩ := same.symm.exists_left inside
      exact absurd (case.trans kind) (lookup_assignAll_none found' f member)
    | some value' =>
      obtain ⟨f, member, kind', rfl⟩ := lookup_assignAll found'
      obtain ⟨e', inside', case, value⟩ := same.exists_left member
      rw [Option.map_some, Option.map_some, ← value]
      exact congrArg some (alike e inside e' inside' kind (case.trans kind'))

/-- One field of a name in capitals and all others in small letters: this field is met. -/
theorem exists_preferred {fields : List (Bytes × Bytes)} {name capitals : Bytes}
    (lower : toLowerCopy capitals = name) (less : capitals < name) {e : Bytes × Bytes}
    (member : e ∈ fields) (kind : toLowerCopy e.1 = name) : ∃ others, SameButCase fields others ∧
      HeaderMap.lookup (SortedMap.empty.assignAll others) name = some e.2 := by
  obtain ⟨before, after, rfl⟩ := List.append_of_mem member
  let low (f : Bytes × Bytes) : Bytes × Bytes := (toLowerCopy f.1, f.2)
  have lowered (rest : List (Bytes × Bytes)) : SameButCase rest (rest.map low) :=
    List.forall₂_map_right_iff.mpr (List.forall₂_same.mpr fun f _ =>
      ⟨(toLowerCopy_idem f.1).symm, rfl⟩)
  -- No name in small letters is the one in capitals.
  have small {f : Bytes × Bytes} (g : Bytes × Bytes) (same : low g = f) :
      f.1 ≠ capitals ∧ (toLowerCopy f.1 = name → f.1 = name) := by
    subst same
    have idem : toLowerCopy (low g).1 = (low g).1 := toLowerCopy_idem g.1
    refine ⟨fun capital => ?_, fun kind' => idem.symm.trans kind'⟩
    rw [capital, lower] at idem
    exact Std.lt_irrefl (idem ▸ less)
  refine ⟨before.map low ++ (capitals, e.2) :: after.map low, ?_, ?_⟩
  · exact List.rel_append (lowered before) (.cons ⟨kind.trans lower.symm, rfl⟩ (lowered after))
  · have held : (capitals, e.2) ∈ (SortedMap.empty.assignAll
        (before.map low ++ (capitals, e.2) :: after.map low)).entries := by
      refine (SortedMap.mem_assignAll_empty _ _ _).mpr ⟨_, _, rfl, fun f member => ?_⟩
      obtain ⟨g, _, same⟩ := List.mem_map.mp member
      exact (small g same).1
    have least : ∀ f ∈ (SortedMap.empty.assignAll
        (before.map low ++ (capitals, e.2) :: after.map low)).entries,
        decide (toLowerCopy f.1 = name) = true → ¬f.1 < capitals := by
      rintro ⟨key, value⟩ entry kind' before'
      have inside := ((SortedMap.mem_assignAll_empty _ key value).mp entry).mem
      rcases List.mem_append.mp inside with inside | inside
      · obtain ⟨g, _, same⟩ := List.mem_map.mp inside
        rw [(small g same).2 (of_decide_eq_true kind')] at before'
        exact Std.lt_irrefl (Std.lt_trans before' less)
      · rcases List.mem_cons.mp inside with same | inside
        · cases same
          exact Std.lt_irrefl before'
        · obtain ⟨g, _, same⟩ := List.mem_map.mp inside
          rw [(small g same).2 (of_decide_eq_true kind')] at before'
          exact Std.lt_irrefl (Std.lt_trans before' less)
    unfold HeaderMap.lookup
    rw [SortedMap.find_least (p := fun key => decide (toLowerCopy key = name)) held
      (decide_eq_true lower) least]
    rfl

/-! ### The two answers -/

/-- The length that `getContentLength` makes of a value. -/
def declaredLength (value : Bytes) : Option Nat :=
  (stoi value).bind fun length => if length < 0 then none else some length.toNat

/-- The comparison of `isKeepAliveRequested`. -/
def asksKeepAlive (value : Bytes) : Bool := toLowerCopy value = bytes "keep-alive"

theorem getContentLength_eq (h : HttpData) : h.getContentLength =
    ((HeaderMap.lookup h.headers_ (bytes "content-length")).map declaredLength).join := by
  unfold HttpData.getContentLength
  cases HeaderMap.lookup h.headers_ (bytes "content-length") with
  | none => rfl
  | some value =>
    simp only [Option.map_some, Option.join_some, declaredLength]
    cases stoi value <;> rfl

theorem isKeepAliveRequested_eq (h : HttpData) : h.isKeepAliveRequested =
    ((HeaderMap.lookup h.headers_ (bytes "connection")).map asksKeepAlive).getD false := by
  unfold HttpData.isKeepAliveRequested
  cases HeaderMap.lookup h.headers_ (bytes "connection") <;> rfl

/-- All lengths that are declared read the same, and all wishes for the connection do. -/
structure ReadsAlike (fields : List (Bytes × Bytes)) : Prop where
  length : ReadAlike (bytes "content-length") declaredLength fields
  keepAlive : ReadAlike (bytes "connection") asksKeepAlive fields

/-- Wherever these fields, and others that differ from them in the case of the names, are
accepted, the answers are the same. -/
def Caseless (fields : List (Bytes × Bytes)) : Prop :=
  ∀ outside outside' h k others, Accepts outside h fields → Accepts outside' k others →
    SameButCase fields others →
      (k.parseHeaders outside').1.getContentLength = (h.parseHeaders outside).1.getContentLength ∧
        (k.parseHeaders outside').1.isKeepAliveRequested =
          (h.parseHeaders outside).1.isKeepAliveRequested

theorem ReadsAlike.caseless {fields : List (Bytes × Bytes)} (alike : ReadsAlike fields) :
    Caseless fields := by
  intro outside outside' h k others accepts accepts' same
  have length := alike.length.lookup same
  have keepAlive := alike.keepAlive.lookup same
  constructor
  · rw [getContentLength_eq, getContentLength_eq, accepts.headers, accepts'.headers, length]
  · rw [isKeepAliveRequested_eq, isKeepAliveRequested_eq, accepts.headers, accepts'.headers,
      keepAlive]

/-- Of fields that are read differently each can be preferred by the case of its name. -/
theorem Caseless.readsAlike {outside : Int → UInt8} {h : HttpData} {fields : List (Bytes × Bytes)}
    (caseless : Caseless fields) (accepts : Accepts outside h fields)
    (small : h.inBuffer_.length ≤ 2 ^ 31) : ReadsAlike fields := by
  constructor
  · have answer (e : Bytes × Bytes) (member : e ∈ fields)
        (kind : toLowerCopy e.1 = bytes "content-length") :
        declaredLength e.2 = (h.parseHeaders outside).1.getContentLength := by
      obtain ⟨others, same, met⟩ := exists_preferred
        (by decide : toLowerCopy (bytes "CONTENT-LENGTH") = _) (by decide) member kind
      obtain ⟨k, accepts'⟩ := accepts.inCase small same
      rw [← (caseless _ _ _ _ _ accepts accepts' same).1, getContentLength_eq, accepts'.headers, met]
      rfl
    exact fun e member f member' kind kind' =>
      (answer e member kind).trans (answer f member' kind').symm
  · have answer (e : Bytes × Bytes) (member : e ∈ fields)
        (kind : toLowerCopy e.1 = bytes "connection") :
        asksKeepAlive e.2 = (h.parseHeaders outside).1.isKeepAliveRequested := by
      obtain ⟨others, same, met⟩ := exists_preferred
        (by decide : toLowerCopy (bytes "CONNECTION") = _) (by decide) member kind
      obtain ⟨k, accepts'⟩ := accepts.inCase small same
      rw [← (caseless _ _ _ _ _ accepts accepts' same).2, isKeepAliveRequested_eq,
        accepts'.headers, met]
      rfl
    exact fun e member f member' kind kind' =>
      (answer e member kind).trans (answer f member' kind').symm

/-- The case of the names does not matter where all fields of a name read alike. Of the fields of
a block of at most 2^31 bytes it matters otherwise. -/
theorem header_names_caseless_iff {fields : List (Bytes × Bytes)} :
    (ReadsAlike fields → Caseless fields) ∧
      ∀ outside h, Accepts outside h fields → h.inBuffer_.length ≤ 2 ^ 31 →
        (Caseless fields ↔ ReadsAlike fields) :=
  ⟨ReadsAlike.caseless, fun _ _ accepts small =>
    ⟨fun caseless => caseless.readsAlike accepts small, ReadsAlike.caseless⟩⟩

/-- A check for fields as a client writes them. -/
def isPlain (field : Bytes × Bytes) : Bool :=
  field.1 ≠ [] && field.1.all (fun c => c ≠ 58 && c ≠ LF && c ≠ CR) &&
    field.2 ≠ [] && field.2.all (fun c => c ≠ LF && c ≠ CR)

theorem PlainField.of_isPlain {field : Bytes × Bytes} (plain : isPlain field = true) :
    PlainField field := by
  unfold isPlain at plain
  simp only [Bool.and_eq_true, decide_eq_true_eq, List.all_eq_true] at plain
  obtain ⟨⟨⟨name, names⟩, value⟩, values⟩ := plain
  exact ⟨name, fun c member => and_assoc.mp (names c member), value, values⟩

/-- A fresh connection that holds a block of these lines. -/
def HttpData.block (fields : List (Bytes × Bytes)) : HttpData :=
  { HttpData.new 0 0 5 with inBuffer_ := LF :: (headerLines fields ++ CRLF) }

theorem accepts_block {fields : List (Bytes × Bytes)} (nonempty : fields ≠ [])
    (plain : fields.all isPlain = true) (small : (headerLines fields).length ≤ 256) :
    Accepts (fun _ => 0) (.block fields) fields := by
  have plain' := fun field member => PlainField.of_isPlain (List.all_eq_true.mp plain field member)
  have text := headerText_of_plain nonempty plain' []
  rw [List.append_nil] at text
  refine accepts_of_text (h := .block fields) _ rfl rfl text (fun field member => ?_) ?_
  -- A value is no longer than all the lines.
  · obtain ⟨before, after, rfl⟩ := List.append_of_mem member
    rw [headerLines_append, List.length_append, length_headerLines_cons, headerLine_length] at small
    omega
  · rw [List.length_singleton]
    omega

theorem header_names_caseless_iff_same :
    Caseless [(bytes "Content-Length", bytes "5"), (bytes "content-length", bytes "5")] := by
  have accepts : Accepts (fun _ => 0) (.block
      [(bytes "Content-Length", bytes "5"), (bytes "content-length", bytes "5")]) _ :=
    accepts_block (by decide) (by decide) (by decide)
  refine (header_names_caseless_iff.2 _ _ accepts (by decide)).mpr ⟨?_, ?_⟩
  · intro e member f member' _ _
    have value : e.2 = bytes "5" := by
      rcases List.mem_pair.mp member with rfl | rfl <;> rfl
    have value' : f.2 = bytes "5" := by
      rcases List.mem_pair.mp member' with rfl | rfl <;> rfl
    rw [value, value']
  · intro e member _ _ kind _
    rcases List.mem_pair.mp member with rfl | rfl
    · exact absurd kind (by decide)
    · exact absurd kind (by decide)

/-- Of two lengths the first is taken if its name is in capitals, else the last. -/
theorem case_decides_length : ∃ h k fields others, Accepts (fun _ => 0) h fields ∧
    Accepts (fun _ => 0) k others ∧ SameButCase fields others ∧
    (h.parseHeaders fun _ => 0).1.getContentLength = some 5 ∧
    (k.parseHeaders fun _ => 0).1.getContentLength = some 6 := by
  have accepts : Accepts (fun _ => 0) (.block
      [(bytes "Content-Length", bytes "5"), (bytes "content-length", bytes "6")]) _ :=
    accepts_block (by decide) (by decide) (by decide)
  have accepts' : Accepts (fun _ => 0) (.block
      [(bytes "content-length", bytes "5"), (bytes "content-length", bytes "6")]) _ :=
    accepts_block (by decide) (by decide) (by decide)
  refine ⟨_, _, _, _, accepts, accepts', ?_, ?_, ?_⟩
  · exact .cons ⟨by decide, rfl⟩ (.cons ⟨rfl, rfl⟩ .nil)
  · rw [getContentLength_eq, accepts.headers]
    decide
  · rw [getContentLength_eq, accepts'.headers]
    decide

end LightAgent

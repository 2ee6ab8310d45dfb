import LightAgent.HttpData.DocumentRoot

/-!
# The request line

`parseURI` does not split the request line at its blanks. It looks for the names of the methods
anywhere in it, `GET` first, and from there on for a slash, a blank and a slash again. Here this is
said of the text of the line, and compared with the line `method target version`.
-/
namespace LightAgent

open Library

def HttpMethod.name : HttpMethod → Bytes
  | .get => bytes "GET"
  | .post => bytes "POST"
  | .head => bytes "HEAD"

/-- The methods whose names are looked for first. -/
def HttpMethod.before : HttpMethod → List HttpMethod
  | .get => []
  | .post => [.get]
  | .head => [.get, .post]

def HttpVersion.text : HttpVersion → Bytes
  | .http10 => bytes "1.0"
  | .http11 => bytes "1.1"

/-! ### The method -/

/-- `int pos = request_line.find(name)` is this place, and not negative. -/
def FoundAt (line name : Bytes) (pos : Nat) : Prop := ∃ i, find name line = some i ∧ toInt i = pos

theorem foundAt_iff (line name : Bytes) (pos : Nat) :
    FoundAt line name pos ↔ intPos (find name line) = pos := by
  unfold FoundAt intPos
  cases find name line with
  | none =>
    constructor
    · rintro ⟨_, found, _⟩
      cases found
    · intro same
      dsimp only at same
      omega
  | some i => simp

theorem intPos_of_not_foundAt {line name : Bytes} (absent : ∀ pos, ¬FoundAt line name pos) :
    intPos (find name line) < 0 := by
  by_contra low
  apply absent (intPos (find name line)).toNat
  rw [foundAt_iff]
  omega

/-- The method that the line is taken for, and the place from which it is read on. -/
structure MethodAt (line : Bytes) (method : HttpMethod) (pos : Nat) : Prop where
  found : FoundAt line method.name pos
  first : ∀ other ∈ method.before, ∀ pos, ¬FoundAt line other.name pos

theorem requestMethod_eq_some {line : Bytes} {method : HttpMethod} {pos : Nat} :
    requestMethod line = some (method, pos) ↔ MethodAt line method pos := by
  have get := foundAt_iff line (bytes "GET")
  have post := foundAt_iff line (bytes "POST")
  have head := foundAt_iff line (bytes "HEAD")
  -- An absent name and one at a place that is negative as an int are the same to the code.
  have noGet (absent : ∀ pos, ¬FoundAt line (bytes "GET") pos) := intPos_of_not_foundAt absent
  have noPost (absent : ∀ pos, ¬FoundAt line (bytes "POST") pos) := intPos_of_not_foundAt absent
  constructor
  · intro taken
    unfold requestMethod at taken
    dsimp only at taken
    -- The first search that does not fail is the one that counts.
    split at taken
    next low =>
      cases taken
      exact ⟨(get _).mpr (by omega), nofun⟩
    next notGet =>
      have absent : ∀ pos, ¬FoundAt line (bytes "GET") pos := by
        intro pos found
        rw [get] at found
        omega
      split at taken
      next low =>
        cases taken
        refine ⟨(post _).mpr (by omega), fun other member => ?_⟩
        cases List.mem_singleton.mp member
        exact absent
      next notPost =>
        have absent' : ∀ pos, ¬FoundAt line (bytes "POST") pos := by
          intro pos found
          rw [post] at found
          omega
        split at taken
        · cases taken
          refine ⟨(head _).mpr (by omega), fun other member => ?_⟩
          rcases List.mem_pair.mp member with rfl | rfl
          · exact absent
          · exact absent'
        · cases taken
  · rintro ⟨found, first⟩
    unfold requestMethod
    dsimp only
    cases method with
    | get =>
      have here := (get pos).mp found
      rw [if_pos (by omega), here]
      rfl
    | post =>
      have here := (post pos).mp found
      have low := noGet (first .get (by simp [HttpMethod.before]))
      rw [if_neg (by omega), if_pos (by omega), here]
      rfl
    | head =>
      have here := (head pos).mp found
      have low := noGet (first .get (by simp [HttpMethod.before]))
      have low' := noPost (first .post (by simp [HttpMethod.before]))
      rw [if_neg (by omega), if_neg (by omega), if_pos (by omega), here]
      rfl

/-! ### Target and version -/

/-- The file name for what stands between the slash and the blank. -/
def targetFile (target : Bytes) : Bytes :=
  if target = [] then bytes "index.html" else target.takeWhile (· ≠ 63)

/-- What a line looks like from its method on. -/
inductive LineShape : Bytes → Prop
  | noSlash {r : Bytes} : 47 ∉ r → LineShape r
  | noBlank (a b : Bytes) : 47 ∉ a → 32 ∉ b → LineShape (a ++ 47 :: b)
  | noVersion (a b c : Bytes) : 47 ∉ a → 32 ∉ b → 47 ∉ c → LineShape (a ++ 47 :: (b ++ 32 :: c))
  | whole (a b c w : Bytes) : 47 ∉ a → 32 ∉ b → 47 ∉ c →
      LineShape (a ++ 47 :: (b ++ 32 :: (c ++ 47 :: w)))

theorem lineShape (r : Bytes) : LineShape r := by
  rcases absent_or_split 47 r with absent | ⟨a, b, rfl, first⟩
  · exact .noSlash absent
  rcases absent_or_split 32 b with absent | ⟨b, c, rfl, second⟩
  · exact .noBlank a b first absent
  rcases absent_or_split 47 c with absent | ⟨c, w, rfl, third⟩
  · exact .noVersion a b c first second absent
  · exact .whole a b c w first second third

namespace HttpData

variable {line : Bytes} {method : HttpMethod} {pos : Nat}

theorem parseLine_noSlash (h : HttpData) (at_ : MethodAt line method pos)
    (absent : 47 ∉ line.drop pos) : h.parseLine line =
      ({ h with method_ := method, fileName_ := bytes "index.html", HTTPVersion_ := .http11 },
        .success) := by
  have slash : bytes "/" = [47] := by decide
  unfold parseLine
  rw [requestMethod_eq_some.mpr at_]
  dsimp only
  rw [slash, findFrom_byte_absent absent]

theorem parseLine_noBlank (h : HttpData) (at_ : MethodAt line method pos) {a b : Bytes}
    (split : line.drop pos = a ++ 47 :: b) (first : 47 ∉ a) (absent : 32 ∉ b) :
    (h.parseLine line).2 = .error := by
  have slash : bytes "/" = [47] := by decide
  have blank : bytes " " = [32] := by decide
  obtain ⟨found, here⟩ := findFrom_byte_first split first
  have absent' : 32 ∉ line.drop (a.length + pos) := by
    rw [here]
    -- The slash itself is no blank.
    exact List.not_mem_cons_of_ne_of_not_mem (by decide) absent
  unfold parseLine
  rw [requestMethod_eq_some.mpr at_]
  dsimp only
  rw [slash, found]
  dsimp only
  rw [blank, findFrom_byte_absent absent']

/-- The two places that are found when there is a slash and a blank behind it. -/
theorem parseLine_target_places {a b r : Bytes} (split : line.drop pos = a ++ 47 :: (b ++ 32 :: r))
    (first : 47 ∉ a) (second : 32 ∉ b) :
    findFrom (bytes "/") line pos = some (a.length + pos) ∧
      findFrom (bytes " ") line (a.length + pos) = some (b.length + 1 + (a.length + pos)) ∧
      line.drop (b.length + 1 + (a.length + pos)) = 32 :: r ∧
      requestFile line (a.length + pos) (b.length + 1 + (a.length + pos)) = targetFile b := by
  have slash : bytes "/" = [47] := by decide
  have blank : bytes " " = [32] := by decide
  obtain ⟨found, here⟩ := findFrom_byte_first split first
  have absent : 32 ∉ 47 :: b := List.not_mem_cons_of_ne_of_not_mem (by decide) second
  -- The blank is looked for from the slash on, not from the byte behind it.
  have slashed : line.drop (a.length + pos) = (47 :: b) ++ 32 :: r := here
  obtain ⟨found', here'⟩ := findFrom_byte_first slashed absent
  rw [slash, blank]
  refine ⟨found, found', here', ?_⟩
  have name : line.drop (a.length + pos + 1) = b ++ 32 :: r := by
    rw [← List.drop_drop, here]
    rfl
  rw [requestFile_eq (by rw [here, name]) (blank ▸ found'), name]
  unfold targetFile
  rw [List.takeWhile_append_of_pos (ne_of_absent second), List.takeWhile_cons_of_neg (by simp),
    List.append_nil]

theorem parseLine_noVersion (h : HttpData) (at_ : MethodAt line method pos) {a b c : Bytes}
    (split : line.drop pos = a ++ 47 :: (b ++ 32 :: c)) (first : 47 ∉ a) (second : 32 ∉ b)
    (absent : 47 ∉ c) : (h.parseLine line).2 = .error := by
  obtain ⟨slash, blank, here, _⟩ := parseLine_target_places split first second
  have absent' : 47 ∉ line.drop (b.length + 1 + (a.length + pos)) := by
    rw [here]
    exact List.not_mem_cons_of_ne_of_not_mem (by decide) absent
  have version : findFrom (bytes "/") line (b.length + 1 + (a.length + pos)) = none := by
    rw [show bytes "/" = [47] by decide]
    exact findFrom_byte_absent absent'
  unfold parseLine
  rw [requestMethod_eq_some.mpr at_]
  dsimp only
  rw [slash]
  dsimp only
  rw [blank]
  dsimp only
  rw [version]

/-- With everything there, the three bytes behind the second slash decide. -/
theorem parseLine_whole (h : HttpData) (at_ : MethodAt line method pos) {a b c w : Bytes}
    (split : line.drop pos = a ++ 47 :: (b ++ 32 :: (c ++ 47 :: w))) (first : 47 ∉ a)
    (second : 32 ∉ b) (third : 47 ∉ c) : h.parseLine line =
      if w.take 3 = bytes "1.0" then
        ({ h with method_ := method, fileName_ := targetFile b, HTTPVersion_ := .http10 }, .success)
      else if w.take 3 = bytes "1.1" then
        ({ h with method_ := method, fileName_ := targetFile b, HTTPVersion_ := .http11 }, .success)
      else ({ h with method_ := method, fileName_ := targetFile b }, .error) := by
  obtain ⟨slash, blank, here, file⟩ := parseLine_target_places split first second
  have absent : 47 ∉ 32 :: c := List.not_mem_cons_of_ne_of_not_mem (by decide) third
  have blanked : line.drop (b.length + 1 + (a.length + pos)) = (32 :: c) ++ 47 :: w := here
  obtain ⟨version, there⟩ := findFrom_byte_first blanked absent
  -- Only that the second slash is found, and what is behind it, matters from here on.
  generalize last : (32 :: c).length + (b.length + 1 + (a.length + pos)) = i at version there
  have found : findFrom (bytes "/") line (b.length + 1 + (a.length + pos)) = some i := by
    rw [show bytes "/" = [47] by decide]
    exact version
  have ver : substr line (i + 1) 3 = w.take 3 := by
    unfold substr
    rw [← List.drop_drop, there]
    rfl
  have length : line.length - i = w.length + 1 := by
    rw [← List.length_drop, there]
    rfl
  unfold parseLine
  rw [requestMethod_eq_some.mpr at_]
  dsimp only
  rw [slash]
  dsimp only
  rw [blank]
  dsimp only
  rw [found]
  dsimp only
  rw [ver, length, file]
  -- A rest that is too short is not one of the two versions either.
  by_cases short : w.length + 1 ≤ 3
  · have few : (w.take 3).length ≤ 2 := by
      rw [List.length_take]
      omega
    have other (v : Bytes) (three : v.length = 3) : w.take 3 ≠ v := by
      intro same
      rw [same] at few
      omega
    rw [if_pos short, if_neg (other _ (by decide)), if_neg (other _ (by decide))]
  · rw [if_neg short]

end HttpData

/-- The texts that are accepted: a method and no slash behind it, or a slash, a blank and a slash
in this order, with a version behind the second one. -/
inductive Admitted (line : Bytes) : HttpMethod → HttpVersion → Prop
  | noSlash {method : HttpMethod} {pos : Nat} : MethodAt line method pos → 47 ∉ line.drop pos →
      Admitted line method .http11
  | whole {method : HttpMethod} {version : HttpVersion} {pos : Nat} {a b c w : Bytes} :
      MethodAt line method pos → line.drop pos = a ++ 47 :: (b ++ 32 :: (c ++ 47 :: w)) →
      47 ∉ a → 32 ∉ b → 47 ∉ c → version.text <+: w → Admitted line method version

theorem text_prefix_iff (version : HttpVersion) (w : Bytes) :
    version.text <+: w ↔ w.take 3 = version.text := by
  rw [List.prefix_iff_eq_take, eq_comm]
  cases version <;> rfl

theorem Admitted.decoded {line : Bytes} {method : HttpMethod} {version : HttpVersion}
    (admitted : Admitted line method version) (h : HttpData) :
    (h.parseLine line).2 = .success ∧ (h.parseLine line).1.method_ = method ∧
      (h.parseLine line).1.HTTPVersion_ = version := by
  cases admitted with
  | noSlash at_ absent =>
    rw [HttpData.parseLine_noSlash h at_ absent]
    exact ⟨rfl, rfl, rfl⟩
  | whole at_ split first second third text =>
    rw [HttpData.parseLine_whole h at_ split first second third]
    rw [text_prefix_iff] at text
    cases version with
    | http10 =>
      change _ = bytes "1.0" at text
      rw [if_pos text]
      exact ⟨rfl, rfl, rfl⟩
    | http11 =>
      change _ = bytes "1.1" at text
      have other : bytes "1.1" ≠ bytes "1.0" := by decide
      rw [if_neg (text.trans_ne other), if_pos text]
      exact ⟨rfl, rfl, rfl⟩

/-- A line is accepted where it is admitted, and any other is an error. -/
theorem parseLine_admitted (h : HttpData) (line : Bytes) : (h.parseLine line).2 = .error ∨
    Admitted line (h.parseLine line).1.method_ (h.parseLine line).1.HTTPVersion_ := by
  cases found : requestMethod line with
  | none =>
    left
    unfold HttpData.parseLine
    rw [found]
  | some method =>
    obtain ⟨method, pos⟩ := method
    have at_ := requestMethod_eq_some.mp found
    generalize behind : line.drop pos = r
    -- The searches find in a text what its shape says, so one case a shape is enough.
    cases lineShape r with
    | noSlash absent =>
      have admitted : Admitted line method .http11 := .noSlash at_ (behind ▸ absent)
      obtain ⟨_, same, same'⟩ := admitted.decoded h
      rw [same, same']
      exact .inr admitted
    | noBlank a b first absent => exact .inl (HttpData.parseLine_noBlank h at_ behind first absent)
    | noVersion a b c first second absent =>
      exact .inl (HttpData.parseLine_noVersion h at_ behind first second absent)
    | whole a b c w first second third =>
      have admits (version : HttpVersion) (text : w.take 3 = version.text) :
          (h.parseLine line).2 = .error ∨
            Admitted line (h.parseLine line).1.method_ (h.parseLine line).1.HTTPVersion_ := by
        have admitted : Admitted line method version :=
          .whole at_ behind first second third ((text_prefix_iff _ _).mpr text)
        obtain ⟨_, same, same'⟩ := admitted.decoded h
        rw [same, same']
        exact .inr admitted
      by_cases old : w.take 3 = bytes "1.0"
      · exact admits .http10 old
      by_cases new : w.take 3 = bytes "1.1"
      · exact admits .http11 new
      rw [HttpData.parseLine_whole h at_ behind first second third, if_neg old, if_neg new]
      exact .inl rfl

/-! ### Lines with a target -/

/-- The line `method /target HTTP/version`. -/
def requestLine (method : HttpMethod) (target version : Bytes) : Bytes :=
  method.name ++ bytes " /" ++ target ++ bytes " HTTP/" ++ version

/-- The beginning of a line is its method, if no other is found first. -/
theorem methodAt_zero {method : HttpMethod} {rest : Bytes}
    (first : ∀ other ∈ method.before, ∀ pos, ¬FoundAt (method.name ++ rest) other.name pos) :
    MethodAt (method.name ++ rest) method 0 := by
  refine ⟨⟨0, ?_, by decide⟩, first⟩
  -- A name is found at once where the line begins with it.
  cases method <;> rfl

theorem requestLine_split (method : HttpMethod) (target version : Bytes) :
    requestLine method target version =
      method.name ++ 32 :: 47 :: (target ++ 32 :: (bytes "HTTP" ++ 47 :: version)) := by
  have begins : bytes " /" = [32, 47] := by decide
  have ends : bytes " HTTP/" = 32 :: (bytes "HTTP" ++ [47]) := by decide
  unfold requestLine
  rw [begins, ends]
  simp only [List.append_assoc, List.cons_append, List.nil_append]

theorem parseLine_requestLine (h : HttpData) {method : HttpMethod} {target version : Bytes}
    (first : ∀ other ∈ method.before, ∀ pos,
      ¬FoundAt (requestLine method target version) other.name pos)
    (plain : 32 ∉ target) : h.parseLine (requestLine method target version) =
      if version.take 3 = bytes "1.0" then
        ({ h with method_ := method, fileName_ := targetFile target, HTTPVersion_ := .http10 },
          .success)
      else if version.take 3 = bytes "1.1" then
        ({ h with method_ := method, fileName_ := targetFile target, HTTPVersion_ := .http11 },
          .success)
      else ({ h with method_ := method, fileName_ := targetFile target }, .error) := by
  rw [requestLine_split] at first ⊢
  have noSlash : 47 ∉ method.name ++ [32] := by cases method <;> decide
  have noSlash' : 47 ∉ bytes "HTTP" := by decide
  apply HttpData.parseLine_whole h (methodAt_zero first) (a := method.name ++ [32]) _ noSlash plain
    noSlash'
  simp only [List.drop_zero, List.append_assoc, List.cons_append, List.nil_append]

theorem parseURI_offered {h : HttpData} {line : Bytes} (rest : Bytes) (whole : CR ∉ line)
    (start : h.nowReadPos_ = 0) : { h with inBuffer_ := line ++ CR :: rest }.parseURI =
      { h with inBuffer_ := rest }.parseLine line :=
  HttpData.parseURI_line rfl whole start

/-! ### Queries -/

theorem targetFile_query {p : Bytes} (plain : 63 ∉ p) (q : Bytes) :
    targetFile (p ++ 63 :: q) = p := by
  unfold targetFile
  rw [if_neg (by simp), List.takeWhile_append_of_pos (ne_of_absent plain),
    List.takeWhile_cons_of_neg (by simp), List.append_nil]

theorem targetFile_plain {p : Bytes} (some : p ≠ []) (plain : 63 ∉ p) : targetFile p = p := by
  unfold targetFile
  rw [if_neg some, takeWhile_absent plain]

theorem cr_requestLine {method : HttpMethod} {target version : Bytes} (targetWhole : CR ∉ target)
    (versionWhole : CR ∉ version) : CR ∉ requestLine method target version := by
  have name : CR ∉ method.name := by cases method <;> decide
  have begins : CR ∉ bytes " /" := by decide
  have ends : CR ∉ bytes " HTTP/" := by decide
  unfold requestLine
  simp only [List.mem_append, not_or]
  exact ⟨⟨⟨⟨name, begins⟩, targetWhole⟩, ends⟩, versionWhole⟩

/-- A query does not change what a GET is decoded to, unless the target is the query alone: then
the name is empty, and without the query it is `index.html`. -/
theorem query_invariance_iff {h : HttpData} {p q version : Bytes} (rest : Bytes)
    (start : h.nowReadPos_ = 0) (blankless : 32 ∉ p ++ q) (whole : CR ∉ p ++ q)
    (plain : 63 ∉ p) (whole' : CR ∉ version) :
    { h with inBuffer_ := requestLine .get (p ++ 63 :: q) version ++ CR :: rest }.parseURI =
        { h with inBuffer_ := requestLine .get p version ++ CR :: rest }.parseURI ↔ p ≠ [] := by
  -- No method comes before GET, so no text in the target can redirect the searches.
  have noFirst (line : Bytes) : ∀ other ∈ HttpMethod.get.before, ∀ pos,
      ¬FoundAt line other.name pos := nofun
  simp only [List.mem_append, not_or] at blankless whole
  obtain ⟨blank, blank'⟩ := blankless
  obtain ⟨feed, feed'⟩ := whole
  have queryBlank : 32 ∉ p ++ 63 :: q := by
    simp only [List.mem_append, List.mem_cons, not_or]
    exact ⟨blank, by decide, blank'⟩
  have queryWhole : CR ∉ p ++ 63 :: q := by
    simp only [List.mem_append, List.mem_cons, not_or]
    exact ⟨feed, by decide, feed'⟩
  rw [parseURI_offered rest (cr_requestLine queryWhole whole') start,
    parseURI_offered rest (cr_requestLine feed whole') start,
    parseLine_requestLine _ (noFirst _) queryBlank, parseLine_requestLine _ (noFirst _) blank,
    targetFile_query plain]
  constructor
  · rintro same rfl
    -- Both results carry the file name, whatever the version is.
    have name := congrArg (fun result => result.1.fileName_) same
    have index : targetFile [] = bytes "index.html" := rfl
    rw [index] at name
    have solid : bytes "index.html" ≠ [] := by decide
    split at name
    · exact solid name.symm
    · split at name
      · exact solid name.symm
      · exact solid name.symm
  · intro some
    rw [targetFile_plain some plain]

/-- Two requests for a page of a directory, one with a query. -/
theorem query_invariance_iff_page :
    (HttpData.holding (requestLine .get (bytes "a/b.html" ++ 63 :: bytes "x=/GET")
        (bytes "1.1") ++ CR :: bytes "\n")).parseURI =
      (HttpData.holding (requestLine .get (bytes "a/b.html") (bytes "1.1") ++
        CR :: bytes "\n")).parseURI :=
  (query_invariance_iff (h := .holding []) (bytes "\n") rfl (by decide) (by decide)
    (by decide) (by decide)).mpr (by decide)

/-- `/?a=b` is not taken for the index page. -/
theorem query_of_index_page :
    (HttpData.holding (bytes "GET /?a=b HTTP/1.1\r\n")).parseURI.1.fileName_ = [] ∧
      (HttpData.holding (bytes "GET / HTTP/1.1\r\n")).parseURI.1.fileName_ =
        bytes "index.html" := by
  decide

/-! ### Any method -/

/-- A name that is found in the line of another method is found in its target. -/
theorem find_requestLine {method other : HttpMethod} (before : other ∈ method.before)
    (target : Bytes) (version : HttpVersion) :
    find other.name (requestLine method target version.text) =
      (find other.name target).map (· + (method.name.length + 2)) := by
  have solid : other.name ≠ [] := by cases other <;> decide
  have blankless : 32 ∉ other.name := by cases other <;> decide
  have slashless : 47 ∉ other.name := by cases other <;> decide
  have outside : find other.name method.name = none := by
    cases method <;> cases other <;> first | decide | simp [HttpMethod.before] at before
  have behind : find other.name (bytes "HTTP" ++ 47 :: version.text) = none := by
    cases other <;> cases version <;> decide
  have empty : find other.name [] = none := if_neg solid
  -- A name holds neither a blank nor a slash, so it lies in one of the pieces between them.
  rw [requestLine_split, find_append_sep solid blankless, outside]
  dsimp only
  rw [← List.nil_append (47 :: _), find_append_sep solid slashless, empty]
  dsimp only
  rw [find_append_sep solid blankless, behind]
  cases find other.name target with
  | none => rfl
  | some i =>
    simp only [Option.map_some, List.length_nil]
    congr 1
    omega

/-- The line `method /path HTTP/version` is decoded to its parts exactly when the path does not
hold the name of a method that is looked for before. (A name from 2^31 on counts as absent where
its place is negative as an `int`.) -/
theorem request_line_decoding_iff {h : HttpData} {method : HttpMethod} {p : Bytes}
    {version : HttpVersion} (rest : Bytes) (start : h.nowReadPos_ = 0) (nonempty : p ≠ [])
    (blankless : 32 ∉ p) (whole : CR ∉ p) (plain : 63 ∉ p) :
    { h with inBuffer_ := requestLine method p version.text ++ CR :: rest }.parseURI =
        ({ h with inBuffer_ := rest, method_ := method, fileName_ := p, HTTPVersion_ := version },
          .success) ↔
      ∀ other ∈ method.before, ∀ i, find other.name p = some i →
        toInt (i + (method.name.length + 2)) < 0 := by
  have versionWhole : CR ∉ version.text := by cases version <;> decide
  have found (other : HttpMethod) (before : other ∈ method.before) (pos : Nat) :
      FoundAt (requestLine method p version.text) other.name pos ↔
        ∃ i, find other.name p = some i ∧ toInt (i + (method.name.length + 2)) = pos := by
    unfold FoundAt
    rw [find_requestLine before]
    cases find other.name p <;> simp
  rw [parseURI_offered rest (cr_requestLine whole versionWhole) start]
  constructor
  · intro same other before i here
    by_contra low
    -- Then the line is decoded to a method whose name is not preceded by another.
    rcases parseLine_admitted { h with inBuffer_ := rest }
      (requestLine method p version.text) with fails | admitted
    · rw [same] at fails
      cases fails
    · rw [same] at admitted
      have first : ∀ pos, ¬FoundAt (requestLine method p version.text) other.name pos := by
        cases admitted with
        | noSlash at_ => exact at_.first other before
        | whole at_ => exact at_.first other before
      apply first (toInt (i + (method.name.length + 2))).toNat
      rw [found other before]
      exact ⟨i, here, by omega⟩
  · intro far
    -- A name of the path whose place is negative is not found, as one that is not there.
    have first : ∀ other ∈ method.before, ∀ pos,
        ¬FoundAt (requestLine method p version.text) other.name pos := by
      intro other before pos here
      obtain ⟨i, name, place⟩ := (found other before pos).mp here
      have negative := far other before i name
      omega
    rw [parseLine_requestLine _ first blankless, targetFile_plain nonempty plain]
    cases version <;> rfl

theorem request_line_decoding_iff_chat :
    (HttpData.holding (requestLine .post (bytes "api/chat/POST") HttpVersion.http11.text ++
        CR :: bytes "\n")).parseURI =
      ({ HttpData.holding (bytes "\n") with
          method_ := .post, fileName_ := bytes "api/chat/POST", HTTPVersion_ := .http11 },
        .success) :=
  (request_line_decoding_iff (h := .holding []) (bytes "\n") rfl (by decide)
    (by decide) (by decide) (by decide)).mpr (by
      intro other before i found
      cases List.mem_singleton.mp before
      have absent : find HttpMethod.get.name (bytes "api/chat/POST") = none := by decide
      cases absent.symm.trans found)

/-- `GET` is found in the path, and the line is read from there on. -/
theorem post_of_GET_is_rejected :
    (HttpData.holding (bytes "POST /GETTING HTTP/1.1\r\n")).parseURI.1.method_ = .get ∧
      (HttpData.holding (bytes "POST /GETTING HTTP/1.1\r\n")).parseURI.2 = .error := by
  decide

/-! ### Soundness -/

/-- The line names a target: its second token, or a slash anywhere. -/
def HasTarget (line : Bytes) : Prop :=
  (∃ target, (line.splitOn 32)[1]? = some target ∧ target ≠ []) ∨ 47 ∈ line

/-- The tokens of the line, divided by blanks, are those of a request: the name of the method and,
where there is a target, the version in the third place. -/
structure WellFormed (line : Bytes) (method : HttpMethod) (version : HttpVersion) : Prop where
  method : (line.splitOn 32)[0]? = some method.name
  version : HasTarget line → (line.splitOn 32)[2]? = some (bytes "HTTP/" ++ version.text)

/-- The same of the text: the method alone, or a blank behind it and then nothing, another blank
and no slash, or one more token and the version. -/
inductive RequestText (method : HttpMethod) (version : HttpVersion) : Bytes → Prop
  | method : RequestText method version method.name
  | blank : RequestText method version (method.name ++ [32])
  | noTarget (t : Bytes) : 47 ∉ t → RequestText method version (method.name ++ 32 :: 32 :: t)
  | whole (target : Bytes) : 32 ∉ target → RequestText method version
      (method.name ++ 32 :: (target ++ 32 :: (bytes "HTTP/" ++ version.text)))
  | more (target t : Bytes) : 32 ∉ target → RequestText method version
      (method.name ++ 32 :: (target ++ 32 :: (bytes "HTTP/" ++ version.text ++ 32 :: t)))

theorem WellFormed.of_tokens {line : Bytes} {method : HttpMethod} {version : HttpVersion}
    {rest : List Bytes} (tokens : line.splitOn 32 = method.name :: rest)
    (third : HasTarget line → rest[1]? = some (bytes "HTTP/" ++ version.text)) :
    WellFormed line method version := by
  constructor
  · rw [tokens]
    rfl
  · intro target
    rw [tokens]
    exact third target

theorem wellFormed_iff (line : Bytes) (method : HttpMethod) (version : HttpVersion) :
    WellFormed line method version ↔ RequestText method version line := by
  have name : 32 ∉ method.name := by cases method <;> decide
  have slashless : 47 ∉ method.name := by cases method <;> decide
  have text : 32 ∉ bytes "HTTP/" ++ version.text := by cases version <;> decide
  constructor
  · rintro ⟨first, third⟩
    rcases absent_or_split 32 line with absent | ⟨a, t, rfl, before⟩
    · rw [splitOn_absent absent] at first
      cases first
      exact .method
    have tokens := splitOn_append before t
    rw [tokens] at first third
    cases first
    -- The second token is all of what is left, or what stands before the next blank.
    rcases absent_or_split 32 t with absent | ⟨target, u, rfl, behind⟩
    · rw [splitOn_absent absent] at tokens third
      -- Without a third token there is no target.
      have empty : t = [] := by
        by_contra some
        cases third (.inl ⟨t, by rw [tokens]; rfl, some⟩)
      rw [empty]
      exact .blank
    rw [splitOn_append behind] at tokens third
    by_cases has : HasTarget (method.name ++ 32 :: (target ++ 32 :: u))
    · have version' := third has
      rcases absent_or_split 32 u with absent | ⟨v, w, rfl, last⟩
      · rw [splitOn_absent absent] at version'
        cases version'
        exact .whole target behind
      · rw [splitOn_append last] at version'
        cases version'
        exact .more target w behind
    · obtain ⟨noToken, noSlash⟩ := not_or.mp has
      have empty : target = [] := by
        by_contra some
        exact noToken ⟨target, by rw [tokens]; rfl, some⟩
      subst empty
      refine .noTarget u fun slash => noSlash ?_
      exact List.mem_append_right _ (List.mem_cons_of_mem _ (List.mem_cons_of_mem _ slash))
  · intro shape
    cases shape with
    | method =>
      apply WellFormed.of_tokens (splitOn_absent name)
      rintro (⟨target, second, _⟩ | slash)
      · rw [splitOn_absent name] at second
        cases second
      · exact absurd slash slashless
    | blank =>
      have tokens : (method.name ++ [32]).splitOn 32 = _ := splitOn_append name []
      apply WellFormed.of_tokens tokens
      rintro (⟨target, second, some⟩ | slash)
      · rw [tokens] at second
        cases second
        contradiction
      · exact absurd slash (by simp [slashless])
    | noTarget t plain =>
      have empty : (32 :: t).splitOn 32 = [] :: t.splitOn 32 := splitOn_append List.not_mem_nil t
      have tokens : (method.name ++ 32 :: 32 :: t).splitOn 32 = _ := splitOn_append name (32 :: t)
      apply WellFormed.of_tokens tokens
      -- Neither the empty second token nor a slash makes a target.
      rintro (⟨target, second, some⟩ | slash)
      · rw [tokens, empty] at second
        cases second
        contradiction
      · exact absurd slash (by simp [slashless, plain])
    | whole target plain =>
      apply WellFormed.of_tokens (splitOn_append name _)
      intro _
      rw [splitOn_append plain, splitOn_absent text]
      rfl
    | more target t plain =>
      apply WellFormed.of_tokens (splitOn_append name _)
      intro _
      rw [splitOn_append plain, splitOn_append text]
      rfl

/-- A line that is accepted has the form of a request, and any other is an error, exactly when
every reading of the line that the searches admit is that of a request of this form. -/
theorem request_line_soundness_iff {h : HttpData} {line : Bytes} (rest : Bytes)
    (start : h.nowReadPos_ = 0) (whole : CR ∉ line) :
    let out := { h with inBuffer_ := line ++ CR :: rest }.parseURI
    ((out.2 = .success → WellFormed line out.1.method_ out.1.HTTPVersion_) ∧
        (out.2 ≠ .success → out.2 = .error)) ↔
      ∀ method version, Admitted line method version → RequestText method version line := by
  intro out
  have decoded : out = { h with inBuffer_ := rest }.parseLine line :=
    parseURI_offered rest whole start
  rw [decoded]
  constructor
  · rintro ⟨sound, _⟩ method version admitted
    obtain ⟨success, same, same'⟩ := admitted.decoded { h with inBuffer_ := rest }
    have tokens := sound success
    -- What is admitted is what the line is decoded to, so the two readings are of one line.
    rw [same, same', wellFormed_iff] at tokens
    exact tokens
  · intro texts
    rcases parseLine_admitted { h with inBuffer_ := rest } line with fails | admitted
    · rw [fails]
      exact ⟨nofun, fun _ => rfl⟩
    · obtain ⟨success, _⟩ := admitted.decoded { h with inBuffer_ := rest }
      refine ⟨fun _ => ?_, fun other => absurd success other⟩
      rw [wellFormed_iff]
      exact texts _ _ admitted

theorem request_line_soundness_iff_hello :
    WellFormed (bytes "GET /hello HTTP/1.1") .get .http11 := by
  let line := bytes "GET /hello HTTP/1.1"
  let h : HttpData := .holding (line ++ CR :: [])
  have whole : CR ∉ line := by decide
  have decoded : (h.parseLine line).1.method_ = .get ∧ (h.parseLine line).1.HTTPVersion_ = .http11 :=
    by decide
  have sound := (request_line_soundness_iff (h := h) [] rfl whole).mpr ?texts
  case texts =>
    intro method version admitted
    obtain ⟨_, same, same'⟩ := admitted.decoded h
    rw [← same, ← same', decoded.1, decoded.2]
    have text : line = HttpMethod.get.name ++ 32 :: (bytes "/hello" ++ 32 ::
      (bytes "HTTP/" ++ HttpVersion.http11.text)) := by decide
    rw [text]
    exact .whole _ (by decide)
  have success : h.parseURI.2 = .success := by decide
  have same : h.parseURI.1.method_ = .get ∧ h.parseURI.1.HTTPVersion_ = .http11 := by decide
  have tokens : WellFormed line h.parseURI.1.method_ h.parseURI.1.HTTPVersion_ := sound.1 success
  rwa [same.1, same.2] at tokens

/-- `GET` is found behind the first byte, and the line is accepted. -/
theorem xget_is_accepted :
    let out := (HttpData.holding (bytes "XGET /hello HTTP/1.1\r\n")).parseURI
    out.2 = .success ∧
      ¬WellFormed (bytes "XGET /hello HTTP/1.1") out.1.method_ out.1.HTTPVersion_ := by
  intro out
  have success : out.2 = .success := by decide
  have method : out.1.method_ = .get := by decide
  have first : ((bytes "XGET /hello HTTP/1.1").splitOn 32)[0]? ≠ some HttpMethod.get.name := by
    decide
  refine ⟨success, fun tokens => first ?_⟩
  rw [← method]
  exact tokens.method

end LightAgent

import LightAgent.HttpData.Analysis
import LightAgent.Library.LexicalPath

/-!
# The files a request line reaches

`parseURI` cuts the name of a file out of the request line, and `analysisRequest` hands it to
`stat` and `open` as it is. Whether it stays inside the working directory depends on the
segments of the target only.
-/
namespace LightAgent

open Library

/-- The worlds agree but for the file at `path`. -/
structure World.SameBut (w w' : World) (path : Bytes) : Prop where
  gateway : w'.gateway = w.gateway
  outside : w'.outside = w.outside
  fs : ∀ n p, p ≠ path → w'.fs n p = w.fs n p

/-- `analysisRequest` passes this path to `stat` and `open`: what it does depends on the file. -/
def Consults (s : Conn) (path : Bytes) : Prop :=
  ∃ w w', World.SameBut w w' path ∧ analysisRequest w' s ≠ analysisRequest w s

/-- The argument of the call of `stat`, where there is one. -/
def HttpData.statPath (h : HttpData) : Option Bytes :=
  if (bytes "api/").isPrefixOf h.fileName_ ∨ h.method_ = .post ∨ h.fileName_ = bytes "hello" ∨
      h.fileName_ = bytes "favicon.ico" then none
  else some (cStr h.fileName_)

theorem analysisStaticRequest_fs {fs fs' : Bytes → Option FileStat} {s : Conn}
    (same : ∀ path, s.http.fileName_ ≠ bytes "hello" → s.http.fileName_ ≠ bytes "favicon.ico" →
      path = cStr s.http.fileName_ → fs' path = fs path) :
    analysisStaticRequest fs' s = analysisStaticRequest fs s := by
  unfold analysisStaticRequest
  dsimp only
  split
  · rfl
  · split
    · rfl
    next hello icon => rw [same _ hello icon rfl]

/-- A file that is not there and one that is there are answered differently. -/
theorem analysisStaticRequest_ne {s : Conn} (hello : s.http.fileName_ ≠ bytes "hello")
    (icon : s.http.fileName_ ≠ bytes "favicon.ico") :
    analysisStaticRequest (fun _ => some ⟨0, true, some ⟨[], rfl⟩⟩) s ≠
      analysisStaticRequest (fun _ => none) s := by
  intro same
  have verdict := congrArg Prod.snd same
  unfold analysisStaticRequest at verdict
  simp only [if_neg hello, if_neg icon] at verdict
  split at verdict
  · cases verdict
  · simp at verdict

theorem consults_iff (s : Conn) (path : Bytes) :
    Consults s path ↔ s.http.statPath = some path := by
  unfold HttpData.statPath
  by_cases api : (bytes "api/").isPrefixOf s.http.fileName_ = true
  · rw [if_pos (.inl api)]
    refine iff_of_false ?_ nofun
    rintro ⟨w, w', same, differs⟩
    apply differs
    unfold analysisRequest
    dsimp only
    rw [if_pos api, if_pos api, same.gateway]
  by_cases post : s.http.method_ = .post
  · rw [if_pos (.inr (.inl post))]
    refine iff_of_false ?_ nofun
    rintro ⟨w, w', same, differs⟩
    exact differs ((analysisRequest_post w' api post).trans (analysisRequest_post w api post).symm)
  unfold Consults
  simp only [analysisRequest_static _ api post, ne_eq]
  by_cases named : s.http.fileName_ = bytes "hello" ∨ s.http.fileName_ = bytes "favicon.ico"
  · rw [if_pos (.inr (.inr named))]
    refine iff_of_false ?_ nofun
    rintro ⟨w, w', same, differs⟩
    apply differs
    apply analysisStaticRequest_fs
    intro _ hello icon _
    exact absurd named (not_or.mpr ⟨hello, icon⟩)
  have file : ¬((bytes "api/").isPrefixOf s.http.fileName_ = true ∨ s.http.method_ = .post ∨
      s.http.fileName_ = bytes "hello" ∨ s.http.fileName_ = bytes "favicon.ico") :=
    not_or.mpr ⟨api, not_or.mpr ⟨post, named⟩⟩
  rw [if_neg file, Option.some.injEq]
  constructor
  · rintro ⟨w, w', same, differs⟩
    -- A file at any other path is not looked at.
    by_contra other
    apply differs
    apply analysisStaticRequest_fs
    rintro _ _ _ rfl
    exact same.fs _ _ other
  · rintro rfl
    let w' : World := { World.bare with
      fs := fun _ p => if p = cStr s.http.fileName_ then some ⟨0, true, some ⟨[], rfl⟩⟩ else none }
    refine ⟨.bare, w', ⟨rfl, rfl, fun _ p other => if_neg other⟩, ?_⟩
    have here : analysisStaticRequest (w'.fs s.wire.served)
          { s with wire := { s.wire with served := s.wire.served + 1 } } =
        analysisStaticRequest (fun _ => some ⟨0, true, some ⟨[], rfl⟩⟩)
          { s with wire := { s.wire with served := s.wire.served + 1 } } := by
      apply analysisStaticRequest_fs
      rintro _ _ _ rfl
      exact if_pos rfl
    rw [here]
    obtain ⟨hello, icon⟩ := not_or.mp named
    exact analysisStaticRequest_ne hello icon

/-! ### The name in the request line -/

/-- The target of a request line: what stands between the first slash behind the method and
the next blank, up to a question mark. -/
def requestTarget (request_line : Bytes) : Bytes :=
  match requestMethod request_line with
  | none => []
  | some (_, pos) =>
    match (request_line.drop pos).dropWhile (· ≠ 47) with
    | [] => bytes "index.html"
    | _ :: target =>
      let name := target.takeWhile (· ≠ 32)
      if name = [] then bytes "index.html" else name.takeWhile (· ≠ 63)

theorem requestFile_eq {line : Bytes} {slash blank : Nat}
    (here : line.drop slash = 47 :: line.drop (slash + 1))
    (ends : findFrom (bytes " ") line slash = some blank) :
    requestFile line slash blank =
      if (line.drop (slash + 1)).takeWhile (· ≠ 32) = [] then bytes "index.html"
      else ((line.drop (slash + 1)).takeWhile (· ≠ 32)).takeWhile (· ≠ 63) := by
  obtain ⟨k, later, rfl⟩ := Option.map_eq_some_iff.mp ends
  have blank : bytes " " = [32] := by decide
  have question : bytes "?" = [63] := by decide
  rw [here, blank, find_byte_cons, if_neg (by decide)] at later
  obtain ⟨n, found, rfl⟩ := Option.map_eq_some_iff.mp later
  have inside := find_byte_lt found
  have length : n + 1 + slash - slash - 1 = n := by omega
  have nonempty : (line.drop (slash + 1)).take n = [] ↔ n = 0 := by
    rw [List.take_eq_nil_iff, or_iff_left_of_imp]
    intro empty
    rw [empty] at inside
    exact absurd inside (Nat.not_lt_zero n)
  rw [find_byte_takeWhile found]
  unfold requestFile substr
  rw [length, question]
  -- With nothing between the slash and the blank the index is asked for.
  by_cases none_ : n = 0
  · rw [if_pos (nonempty.mpr none_), if_neg (by omega)]
  · rw [if_neg (mt nonempty.mp none_), if_pos (by omega)]
    dsimp only
    split
    next i found => exact (find_byte_takeWhile found).symm
    next absent => exact (takeWhile_absent (find_byte_none absent)).symm

/-- A request line that is accepted sets `fileName_` to its target. -/
theorem parseLine_target {h : HttpData} {line : Bytes} (accepted : (h.parseLine line).2 = .success) :
    (h.parseLine line).1.fileName_ = requestTarget line := by
  unfold HttpData.parseLine at accepted ⊢
  unfold requestTarget
  have slash : bytes "/" = [47] := by decide
  cases method : requestMethod line with
  | none => rw [method] at accepted; cases accepted
  | some found =>
    obtain ⟨method', pos⟩ := found
    rw [method] at accepted
    dsimp only at accepted ⊢
    cases path : findFrom (bytes "/") line pos with
    | none =>
      rw [slash] at path
      have absent := find_byte_none (Option.map_eq_none_iff.mp path)
      rw [dropWhile_absent absent]
    | some i =>
      rw [path] at accepted
      rw [slash] at path
      obtain ⟨k, found, rfl⟩ := Option.map_eq_some_iff.mp path
      have here : line.drop (k + pos) = 47 :: line.drop (k + pos + 1) := by
        have cut := find_byte_drop found
        rwa [List.drop_drop, List.drop_drop, Nat.add_comm pos, Nat.add_comm pos,
          Nat.add_right_comm] at cut
      have target : (line.drop pos).dropWhile (· ≠ 47) = 47 :: line.drop (k + pos + 1) := by
        rw [find_byte_dropWhile found, List.drop_drop, Nat.add_comm pos, here]
      rw [target]
      dsimp only at accepted ⊢
      cases ends : findFrom (bytes " ") line (k + pos) with
      | none => rw [ends] at accepted; cases accepted
      | some blank =>
        rw [ends] at accepted
        rw [← requestFile_eq here ends]
        dsimp only at accepted ⊢
        -- The version is looked for behind the name and changes no other member.
        repeat' split
        all_goals rfl

theorem parseURI_target {h : HttpData} {line rest : Bytes}
    (buffer : h.inBuffer_ = line ++ CR :: rest) (whole : CR ∉ line) (start : h.nowReadPos_ = 0)
    (accepted : h.parseURI.2 = .success) : h.parseURI.1.fileName_ = requestTarget line := by
  rw [HttpData.parseURI_line buffer whole start] at accepted ⊢
  exact parseLine_target accepted

/-! ### Containment -/

def SLASH : UInt8 := 47
def DOT : UInt8 := 46

/-- The target is not looked up as a file, or its name comes back into the working directory
by the names of the directories it leaves. -/
def Confined (cwd : List Bytes) (request_line : Bytes) : Prop :=
  let target := requestTarget request_line
  (bytes "api/").isPrefixOf target ∨ target = bytes "hello" ∨ target = bytes "favicon.ico" ∨
    Returns SLASH DOT cwd (cStr target)

instance (cwd : List Bytes) (request_line : Bytes) : Decidable (Confined cwd request_line) :=
  inferInstanceAs (Decidable (_ ∨ _))

/-- For a GET or HEAD whose request line is accepted, the path given to `stat` and `open` stays
in the working directory exactly when the target is confined. -/
theorem document_root_containment_iff {h : HttpData} {line rest : Bytes} {s : Conn}
    (cwd : List Bytes) (buffer : h.inBuffer_ = line ++ CR :: rest) (whole : CR ∉ line)
    (start : h.nowReadPos_ = 0) (accepted : h.parseURI.2 = .success)
    (method : h.parseURI.1.method_ ≠ .post) (name : s.http.fileName_ = h.parseURI.1.fileName_)
    (same : s.http.method_ = h.parseURI.1.method_) :
    (∀ path, Consults s path → cwd <+: resolve SLASH DOT cwd path) ↔ Confined cwd line := by
  have target : s.http.fileName_ = requestTarget line :=
    name.trans (parseURI_target buffer whole start accepted)
  have get : s.http.method_ ≠ .post := same ▸ method
  simp only [consults_iff, HttpData.statPath, target, get, false_or, Confined]
  -- The gateway and the two built-in names consult no file.
  by_cases unasked : (bytes "api/").isPrefixOf (requestTarget line) = true ∨
      requestTarget line = bytes "hello" ∨ requestTarget line = bytes "favicon.ico"
  · rw [if_pos unasked]
    refine iff_of_true nofun ?_
    rcases unasked with api | hello | icon
    · exact .inl api
    · exact .inr (.inl hello)
    · exact .inr (.inr (.inl icon))
  · rw [if_neg unasked]
    obtain ⟨api, named⟩ := not_or.mp unasked
    obtain ⟨hello, icon⟩ := not_or.mp named
    simp only [Option.some.injEq, forall_eq', resolve_inside_iff]
    exact ⟨fun inside => .inr (.inr (.inr inside)), fun confined =>
      ((confined.resolve_left api).resolve_left hello).resolve_left icon⟩

/-- A connection that has received this. -/
def HttpData.holding (buffer : Bytes) : HttpData := { HttpData.new 0 0 5 with inBuffer_ := buffer }

def workingDirectory : List Bytes := [bytes "srv", bytes "www"]

/-- A request for a page that names the directory above its own. -/
def pageRequest : Bytes := bytes "GET /a/../b.html HTTP/1.1\r\nA: b\r\n\r\n"

theorem document_root_containment_iff_page :
    Consults ⟨(HttpData.holding pageRequest).parseURI.1, .idle, .new⟩ (bytes "a/../b.html") ∧
      workingDirectory <+: resolve SLASH DOT workingDirectory (bytes "a/../b.html") := by
  have buffer : (HttpData.holding pageRequest).inBuffer_ =
      bytes "GET /a/../b.html HTTP/1.1" ++ CR :: bytes "\nA: b\r\n\r\n" := by decide
  have consulted : Consults ⟨(HttpData.holding pageRequest).parseURI.1, .idle, .new⟩
      (bytes "a/../b.html") := (consults_iff _ _).mpr (by decide)
  have contained := (document_root_containment_iff
    (s := ⟨(HttpData.holding pageRequest).parseURI.1, .idle, .new⟩) workingDirectory buffer
    (by decide) rfl (by decide) (by decide) rfl rfl).mpr (by decide)
  exact ⟨consulted, contained _ consulted⟩

/-- `/../secret` is looked up beside the working directory. -/
theorem parent_directory_is_consulted : ∃ (h : HttpData) (s : Conn) (path : Bytes),
    h.inBuffer_ = bytes "GET /../secret HTTP/1.1" ++ CR :: bytes "\nA: b\r\n\r\n" ∧
    h.parseURI = (s.http, .success) ∧ s.http.method_ = .get ∧ Consults s path ∧
    resolve SLASH DOT workingDirectory path = [bytes "srv", bytes "secret"] ∧
    ¬workingDirectory <+: resolve SLASH DOT workingDirectory path := by
  let h := HttpData.holding (bytes "GET /../secret HTTP/1.1\r\nA: b\r\n\r\n")
  -- The leading slash is dropped and the dots are kept.
  have asked : h.parseURI.1.statPath = some (bytes "../secret") := by decide
  refine ⟨h, ⟨h.parseURI.1, .idle, .new⟩, bytes "../secret", by decide, ?_, ?_, ?_, ?_, ?_⟩
  · exact Prod.ext rfl (by decide)
  · decide
  · exact (consults_iff _ _).mpr asked
  · decide
  · decide

end LightAgent

import LightAgent.State

/-!
# HttpData::parseURI

The request line is cut off at the first CR and decoded by a chain of searches.
Once the CR is there, what follows it is left in the buffer and never looked at.
-/
namespace LightAgent

open Library

def CR : UInt8 := 13
def LF : UInt8 := 10

/-- `int pos = str.find(..)`, where `npos` narrows to -1. -/
def intPos (found : Option Nat) : Int :=
  match found with
  | some i => toInt i
  | none => -1

/-- The method and the place it was found at, the three names being tried in order. -/
def requestMethod (request_line : Bytes) : Option (HttpMethod × Nat) :=
  let posGet := intPos (find (bytes "GET") request_line)
  let posPost := intPos (find (bytes "POST") request_line)
  let posHead := intPos (find (bytes "HEAD") request_line)
  if posGet ≥ 0 then some (.get, posGet.toNat)
  else if posPost ≥ 0 then some (.post, posPost.toNat)
  else if posHead ≥ 0 then some (.head, posHead.toNat)
  else none

/-- The file name between the slash at `pos` and the blank at `blank`. -/
def requestFile (request_line : Bytes) (pos blank : Nat) : Bytes :=
  if blank - pos > 1 then
    let fileName := substr request_line (pos + 1) (blank - pos - 1)
    match find (bytes "?") fileName with
    | some question => fileName.take question
    | none => fileName
  else bytes "index.html"

/-- `parseURI` once the request line is cut off. -/
def HttpData.parseLine (h : HttpData) (request_line : Bytes) : HttpData × URIState :=
  match requestMethod request_line with
  | none => (h, .error)
  | some (method, pos) =>
    let h := { h with method_ := method }
    match findFrom (bytes "/") request_line pos with
    -- Without a slash the version is not looked at either.
    | none => ({ h with fileName_ := bytes "index.html", HTTPVersion_ := .http11 }, .success)
    | some pos =>
      match findFrom (bytes " ") request_line pos with
      | none => (h, .error)
      | some blank =>
        let h := { h with fileName_ := requestFile request_line pos blank }
        match findFrom (bytes "/") request_line blank with
        | none => (h, .error)
        | some pos =>
          if request_line.length - pos ≤ 3 then (h, .error)
          else
            let ver := substr request_line (pos + 1) 3
            if ver = bytes "1.0" then ({ h with HTTPVersion_ := .http10 }, .success)
            else if ver = bytes "1.1" then ({ h with HTTPVersion_ := .http11 }, .success)
            else (h, .error)

def HttpData.parseURI (h : HttpData) : HttpData × URIState :=
  match findFrom [CR] h.inBuffer_ h.nowReadPos_ with
  | none => (h, .again)
  | some pos =>
    { h with inBuffer_ := h.inBuffer_.drop (pos + 1) }.parseLine (h.inBuffer_.take pos)

namespace HttpData

/-- The same connection with bytes received behind what is buffered. -/
def received (h : HttpData) (s : Bytes) : HttpData := { h with inBuffer_ := h.inBuffer_ ++ s }

@[simp] theorem received_nil (h : HttpData) : h.received [] = h := by
  simp [received]

@[simp] theorem received_received (h : HttpData) (s t : Bytes) :
    (h.received s).received t = h.received (s ++ t) := by
  simp [received]

/-- All that decoding a line can do: a line that is accepted determines the three
members of the request line, one that is rejected may have set some of them. -/
theorem parseLine_cases (line : Bytes) :
    (∃ method version file, ∀ h : HttpData, h.parseLine line =
      ({ h with method_ := method, HTTPVersion_ := version, fileName_ := file }, .success)) ∨
    (∃ (method : HttpMethod → HttpMethod) (file : Bytes → Bytes), ∀ h : HttpData,
      h.parseLine line =
        ({ h with method_ := method h.method_, fileName_ := file h.fileName_ }, .error)) := by
  unfold parseLine
  cases requestMethod line with
  | none => exact .inr ⟨id, id, fun _ => rfl⟩
  | some found =>
    obtain ⟨method, pos⟩ := found
    dsimp only
    cases findFrom (bytes "/") line pos with
    | none => exact .inl ⟨method, .http11, bytes "index.html", fun _ => rfl⟩
    | some slash =>
      dsimp only
      cases findFrom (bytes " ") line slash with
      | none => exact .inr ⟨fun _ => method, id, fun _ => rfl⟩
      -- From here on the file name is set, also where the line is refused.
      | some blank =>
        have rejected : ∃ (m : HttpMethod → HttpMethod) (f : Bytes → Bytes), ∀ h : HttpData,
            (({ h with method_ := method, fileName_ := requestFile line slash blank },
              URIState.error) : HttpData × URIState) =
            ({ h with method_ := m h.method_, fileName_ := f h.fileName_ }, .error) :=
          ⟨fun _ => method, fun _ => requestFile line slash blank, fun _ => rfl⟩
        dsimp only
        cases findFrom (bytes "/") line blank with
        | none => exact .inr rejected
        | some pos =>
          dsimp only
          split
          · exact .inr rejected
          · split
            · exact .inl ⟨method, .http10, requestFile line slash blank, fun _ => rfl⟩
            · split
              · exact .inl ⟨method, .http11, requestFile line slash blank, fun _ => rfl⟩
              · exact .inr rejected

/-- The line is what comes before the first CR, and what comes behind that CR stays. -/
theorem parseURI_line {h : HttpData} {line rest : Bytes}
    (buffer : h.inBuffer_ = line ++ CR :: rest) (whole : CR ∉ line) (start : h.nowReadPos_ = 0) :
    h.parseURI = { h with inBuffer_ := rest }.parseLine line := by
  have found : findFrom [CR] h.inBuffer_ h.nowReadPos_ = some line.length := by
    unfold findFrom
    rw [buffer, start, List.drop_zero, find_byte_first whole]
    rfl
  have cut : h.inBuffer_.take line.length = line := by rw [buffer, List.take_left]
  have left : h.inBuffer_.drop (line.length + 1) = rest := by
    rw [buffer, ← List.drop_drop, List.drop_left]
    rfl
  unfold parseURI
  rw [found]
  dsimp only
  rw [cut, left]

/-- `parseURI` is determined by the buffer, the read position and the members it sets. -/
theorem parseURI_same {h k : HttpData} (inBuffer : k.inBuffer_ = h.inBuffer_)
    (nowReadPos : k.nowReadPos_ = h.nowReadPos_) (method : k.method_ = h.method_)
    (version : k.HTTPVersion_ = h.HTTPVersion_) (file : k.fileName_ = h.fileName_) :
    k.parseURI = ({ k with
      inBuffer_ := h.parseURI.1.inBuffer_
      method_ := h.parseURI.1.method_
      HTTPVersion_ := h.parseURI.1.HTTPVersion_
      fileName_ := h.parseURI.1.fileName_ }, h.parseURI.2) := by
  unfold parseURI
  rw [inBuffer, nowReadPos]
  cases findFrom [CR] h.inBuffer_ h.nowReadPos_ with
  | none => simp only [← inBuffer, ← nowReadPos, ← method, ← version, ← file]
  | some pos =>
    dsimp only
    -- A refused line leaves members as they were, which are the same.
    rcases parseLine_cases (h.inBuffer_.take pos) with ⟨_, _, _, eq⟩ | ⟨_, _, eq⟩
    · rw [eq, eq]
    · rw [eq, eq]
      simp only [method, version, file]

theorem parseLine_received (h : HttpData) (line s : Bytes) :
    (h.received s).parseLine line = ((h.parseLine line).1.received s, (h.parseLine line).2) := by
  rcases parseLine_cases line with ⟨method, version, file, eq⟩ | ⟨method, file, eq⟩
  all_goals rw [eq, eq]; rfl

/-- A request line that is complete is decoded alike whatever follows it. -/
theorem parseURI_received {h : HttpData} (complete : h.parseURI.2 ≠ .again) (s : Bytes) :
    (h.received s).parseURI = (h.parseURI.1.received s, h.parseURI.2) := by
  unfold parseURI at complete ⊢
  cases found : findFrom [CR] h.inBuffer_ h.nowReadPos_ with
  | none => simp [found] at complete
  | some pos =>
    have inside := findFrom_byte_lt found
    have later : findFrom [CR] (h.received s).inBuffer_ (h.received s).nowReadPos_ = some pos :=
      findFrom_byte_append found s
    rw [later]
    dsimp only
    rw [← parseLine_received]
    -- The CR lies within the old bytes, so the line does not see the new ones.
    have line : (h.received s).inBuffer_.take pos = h.inBuffer_.take pos :=
      List.take_append_of_le_length (by omega)
    have rest : (h.received s).inBuffer_.drop (pos + 1) = h.inBuffer_.drop (pos + 1) ++ s :=
      List.drop_append_of_le_length (by omega)
    rw [line, rest]
    rfl

end HttpData

end LightAgent

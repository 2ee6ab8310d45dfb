import LightAgent.Library.Decimal
import LightAgent.HttpData.ContentLength
import LightAgent.HttpData.HeaderNames
import LightAgent.HttpData.RequestLine
import LightAgent.HttpData.Pipelining

/-!
# Requests as clients write them

A request that keeps to what the parsers read back: its text is a request line, header lines, a
blank line and the body that `Content-Length` declares. An idle connection that is given the text
comes to the analysis with the parts of the request.
-/
namespace LightAgent

open Library

structure ClientRequest where
  method : HttpMethod
  path : Bytes
  version : HttpVersion
  /-- the header fields beside `Content-Length` -/
  fields : List (Bytes × Bytes)
  body : Bytes
  /-- The path is a target of its own, without a query. -/
  target : path ≠ [] ∧ 32 ∉ path ∧ CR ∉ path ∧ 63 ∉ path
  /-- No method that is looked for before is found in it. -/
  decoded : ∀ other ∈ method.before, find other.name path = none
  plain : ∀ field ∈ fields, PlainField field ∧ field.2.length ≤ 256
  noLength : ∀ field ∈ fields, toLowerCopy field.1 ≠ bytes "content-length"
  /-- There is a header line, as the parser asks for one. -/
  headed : method = .post ∨ fields ≠ []
  bodiless : method ≠ .post → body = []

namespace ClientRequest

variable {q : ClientRequest}

def line (q : ClientRequest) : Bytes := requestLine q.method q.path q.version.text

/-- The header lines; a POST declares its body. -/
def lines (q : ClientRequest) : List (Bytes × Bytes) :=
  if q.method = .post then (bytes "Content-Length", decimal q.body.length) :: q.fields
  else q.fields

def text (q : ClientRequest) : Bytes :=
  q.line ++ CR :: LF :: (headerLines q.lines ++ (CRLF ++ q.body))

/-- The headers the connection keeps. -/
def headers (q : ClientRequest) : HeaderMap := .ofFields q.lines

/-- What `isKeepAliveRequested` finds. -/
def keepAlive (q : ClientRequest) : Bool :=
  ((HeaderMap.lookup q.headers (bytes "connection")).map asksKeepAlive).getD false

theorem line_whole (q : ClientRequest) : CR ∉ q.line :=
  cr_requestLine q.target.2.2.1 (by cases q.version <;> decide)

theorem length_text (q : ClientRequest) : q.text.length =
    q.line.length + (headerLines q.lines).length + q.body.length + 4 := by
  unfold text CRLF
  simp only [List.length_append, List.length_cons, List.length_nil]
  omega

theorem lines_ne_nil (q : ClientRequest) : q.lines ≠ [] := by
  unfold lines
  split
  next => exact List.cons_ne_nil _ _
  next other => exact q.headed.resolve_left other

/-- Header lines of a client fit the parser, the one with the length as well. -/
theorem plain_lines (small : q.text.length < 2 ^ 31) :
    ∀ field ∈ q.lines, PlainField field ∧ field.2.length ≤ 256 := by
  have length : q.body.length < 10 ^ (9 + 1) := by
    rw [length_text] at small
    omega
  have digits (b : UInt8) (member : b ∈ decimal q.body.length) : b ≠ LF ∧ b ≠ CR := by
    obtain ⟨low, _⟩ := decimal_digits member
    constructor
    all_goals
      rintro rfl
      revert low
      decide
  intro field member
  unfold lines at member
  split at member
  next =>
    rcases List.mem_cons.mp member with rfl | member
    · have name : bytes "Content-Length" ≠ [] := by decide
      have nameBytes : ∀ c ∈ bytes "Content-Length", c ≠ 58 ∧ c ≠ LF ∧ c ≠ CR := by decide +kernel
      refine ⟨⟨name, nameBytes, decimal_ne_nil _, digits⟩, ?_⟩
      exact Nat.le_trans (decimal_length_le length) (by decide)
    · exact q.plain field member
  next => exact q.plain field member

/-! ### The length -/

theorem isdigit_decimal {n : Nat} {b : UInt8} (member : b ∈ decimal n) : isdigit b = true := by
  obtain ⟨low, high⟩ := decimal_digits member
  simp [isdigit, low, high]

/-- Digits are added up alike from the front and from the back. -/
theorem digitsValue_decimal (n : Nat) : digitsValue (decimal n) = n := by
  unfold digitsValue
  induction n using Nat.base_induction 10 (by decide) with
  | single n digit => simp [decimal_of_lt digit, digitByte_toNat digit]
  | digit n k digit positive ih =>
    rw [decimal_append positive digit, List.foldl_append, ih, List.foldl_cons, List.foldl_nil,
      digitByte_toNat digit]
    omega

theorem decimal_denotes {n : Nat} (small : n ≤ 2147483647) : Denotes (decimal n) n :=
  ⟨decimal_ne_nil n, fun _ => isdigit_decimal, digitsValue_decimal n, small⟩

/-- The length that is declared is that of the body. -/
theorem lookup_length (post : q.method = .post) :
    HeaderMap.lookup q.headers (bytes "content-length") = some (decimal q.body.length) := by
  have declared : (bytes "Content-Length", decimal q.body.length) ∈ q.lines := by
    unfold lines
    rw [if_pos post]
    exact List.mem_cons_self
  cases found : HeaderMap.lookup q.headers (bytes "content-length") with
  | none =>
    have named : toLowerCopy (bytes "Content-Length") = bytes "content-length" := by decide
    exact absurd named (lookup_assignAll_none found _ declared)
  | some value =>
    obtain ⟨field, member, named, rfl⟩ := lookup_assignAll found
    -- No other field has the name.
    unfold lines at member
    rw [if_pos post] at member
    rcases List.mem_cons.mp member with rfl | member
    · rfl
    · exact absurd named (q.noLength field member)

theorem getContentLength_headers {h : HttpData} (headers : h.headers_ = q.headers)
    (post : q.method = .post) (small : q.body.length ≤ 2147483647) :
    h.getContentLength = some q.body.length :=
  (getContentLength_eq_some_iff (headers ▸ lookup_length post)).mpr
    ⟨[], _, (decimal_denotes small).numeral, by simp [signedValue, digitsValue_decimal], small⟩

theorem isKeepAliveRequested_headers {h : HttpData} (headers : h.headers_ = q.headers) :
    h.isKeepAliveRequested = q.keepAlive := by
  rw [isKeepAliveRequested_eq, headers]
  rfl

/-! ### Parsing -/

/-- The request line is read back, and what follows it is left. -/
theorem parseURI_line {h : HttpData} {rest : Bytes} (buffer : h.inBuffer_ = q.line ++ CR :: rest)
    (start : h.nowReadPos_ = 0) : h.parseURI =
      ({ h with inBuffer_ := rest, method_ := q.method, fileName_ := q.path,
                HTTPVersion_ := q.version }, .success) := by
  have first : ∀ other ∈ q.method.before, ∀ pos,
      ¬FoundAt (requestLine q.method q.path q.version.text) other.name pos := by
    rintro other before pos ⟨i, found, _⟩
    rw [find_requestLine before, q.decoded other before] at found
    cases found
  rw [HttpData.parseURI_line buffer q.line_whole start]
  unfold line
  rw [parseLine_requestLine _ first q.target.2.1, targetFile_plain q.target.1 q.target.2.2.2]
  cases q.version <;> rfl

/-- The header lines are read back, and what has come of the body is left. -/
theorem parseHeaders_lines (outside : Int → UInt8) {h : HttpData} {come : Bytes}
    (small : q.text.length < 2 ^ 31)
    (buffer : h.inBuffer_ = LF :: (headerLines q.lines ++ (CRLF ++ come)))
    (start : h.hState_ = .start) (empty : h.headers_ = .empty) : h.parseHeaders outside =
      ({ h with hState_ := .endLf, headers_ := q.headers, inBuffer_ := come }, .success) := by
  have plain := plain_lines small
  have short : (headerLines q.lines).length ≤ 2 ^ 31 := by
    rw [length_text] at small
    omega
  have text := headerText_of_plain q.lines_ne_nil (fun field member => (plain field member).1) come
  rw [← buffer] at text
  have measured : AllMeasured 1 q.lines := by
    refine allMeasured_of_small (fun field member => ?_) (by omega)
    obtain ⟨⟨name, _, value, _⟩, length⟩ := plain field member
    exact ⟨name, value, length⟩
  have here : h.inBuffer_.drop 1 = headerLines q.lines ++ (CRLF ++ come) := by
    rw [buffer]
    rfl
  have cut : slices outside h.inBuffer_ 1 q.lines = q.lines :=
    slices_of_small outside here (by omega)
  have parsed := HttpData.parseHeaders_text outside start text measured
  rw [List.length_singleton, cut, empty] at parsed
  exact parsed

/-- The connection has the request, and nothing but its body is left of the text. -/
structure Understood (q : ClientRequest) (s t : Conn) : Prop where
  method_ : t.http.method_ = q.method
  fileName_ : t.http.fileName_ = q.path
  headers_ : t.http.headers_ = q.headers
  inBuffer_ : t.http.inBuffer_ = q.body
  ready : t.http.Ready
  wire : t.wire = s.wire

/-- The members behind the request line. -/
def lineRead (q : ClientRequest) (h : HttpData) (rest : Bytes) : HttpData :=
  { h with
    inBuffer_ := rest
    method_ := q.method
    fileName_ := q.path
    HTTPVersion_ := q.version
    state_ := .parseHeaders }

/-- The members behind the header lines. -/
def headRead (q : ClientRequest) (h : HttpData) (come : Bytes) : HttpData :=
  { q.lineRead h come with
    hState_ := .endLf
    headers_ := q.headers
    state_ := if q.method = .post then .recvBody else .analysis }

theorem parseUriStage_line {s : Conn} {rest : Bytes} (state : s.http.state_ = .parseUri)
    (start : s.http.nowReadPos_ = 0) (buffer : s.http.inBuffer_ = q.line ++ CR :: rest) :
    parseUriStage s = .ok (s.setHttp (q.lineRead s.http rest)) := by
  unfold parseUriStage
  rw [if_pos state, parseURI_line buffer start]
  rfl

theorem parseHeadersStage_lines {w : World} {s : Conn} (come : Bytes)
    (small : q.text.length < 2 ^ 31) (start : s.http.hState_ = .start)
    (empty : s.http.headers_ = .empty) :
    parseHeadersStage w (s.setHttp (q.lineRead s.http
        (LF :: (headerLines q.lines ++ (CRLF ++ come))))) =
      .ok (s.setHttp (q.headRead s.http come)) := by
  unfold parseHeadersStage
  rw [if_pos (by rfl)]
  dsimp only [Conn.setHttp]
  rw [parseHeaders_lines (q := q) (h := q.lineRead s.http _) w.outside small rfl start empty]
  unfold headRead
  dsimp only
  by_cases post : q.method = .post
  · rw [if_pos post]
    exact if_pos post
  · rw [if_neg post]
    exact if_neg post

/-- A body that is not there yet is waited for. -/
theorem recvBodyStage_come {s : Conn} {come : Bytes} (small : q.text.length < 2 ^ 31)
    (part : come <+: q.body) : recvBodyStage (s.setHttp (q.headRead s.http come)) =
      if come = q.body then .ok (s.setHttp { q.headRead s.http come with state_ := .analysis })
      else .error (s.setHttp (q.headRead s.http come)) := by
  have length := q.length_text
  have shorter := part.length_le
  unfold recvBodyStage
  by_cases post : q.method = .post
  · have state : (s.setHttp (q.headRead s.http come)).http.state_ = .recvBody := if_pos post
    have declared : (s.setHttp (q.headRead s.http come)).http.getContentLength =
        some q.body.length := getContentLength_headers rfl post (by omega)
    have buffer : (s.setHttp (q.headRead s.http come)).http.inBuffer_ = come := rfl
    rw [if_pos state, declared, buffer, toInt_of_lt (by omega)]
    dsimp only
    by_cases whole : come = q.body
    · rw [if_pos whole, if_neg (by rw [whole]; exact Int.lt_irrefl _)]
      rfl
    · have some : come.length < q.body.length :=
        Nat.lt_of_le_of_ne shorter fun same => whole (part.eq_of_length same)
      rw [if_neg whole, if_pos (Int.ofNat_lt.mpr some)]
  · have state : (q.headRead s.http come).state_ = .analysis := if_neg post
    have past : (s.setHttp (q.headRead s.http come)).http.state_ ≠ .recvBody := by
      change (q.headRead s.http come).state_ ≠ _
      rw [state]
      decide
    have whole : come = q.body := by
      rw [q.bodiless post] at part ⊢
      exact List.prefix_nil.mp part
    rw [if_neg past, if_pos whole, ← state]

theorem understood {w : World} {s : Conn} (idle : Idle s) (small : q.text.length < 2 ^ 31) :
    ∃ t, parseStages w (s.received q.text) = .ok t ∧ q.Understood s t := by
  have settled := idle.settled.received q.text
  have line := parseUriStage_line (s := s.received q.text) (q := q) idle.state idle.position
    (idle.received_buffer q.text)
  have block := parseHeadersStage_lines (w := w) (s := s.received q.text) q.body small
    (settled.between.fresh idle.state) idle.headers
  have body := recvBodyStage_come (q := q) (s := s.received q.text) small (List.prefix_refl _)
  rw [if_pos rfl] at body
  have stages := parseStages_eq_ok.mpr ⟨_, _, line, block, body⟩
  exact ⟨_, stages, rfl, rfl, rfl, rfl, parseStages_ready settled.between stages, rfl⟩

end ClientRequest

end LightAgent

import LightAgent.HttpData.DocumentRoot
import LightAgent.HttpData.ResponseHeads

/-!
# Where a response ends

A client on a persistent connection finds the end of a response from its head. Here the
responses of all routes are held against the length they announce, and those of HEAD against
those of GET.
-/
namespace LightAgent

open Library

/-! ### What the heads announce -/

theorem keepAliveFields_values (keepAlive : Bool) :
    (keepAliveFields keepAlive).filter (fun field => isLength field.name) = [] := by
  cases keepAlive with
  | false => rfl
  | true => decide

theorem apiHead_values {response : LightAgentGateway.Response} (keepAlive : Bool)
    (unbroken : Unbroken response.reason ∧ Unbroken response.contentType) :
    (apiHead response keepAlive unbroken).values isLength = [decimal response.body.length] := by
  have type : isLength (bytes "Content-Type") = false := by decide
  have length : isLength (bytes "Content-Length") = true := by decide
  have server : isLength (bytes "Server") = false := by decide
  simp [Head.values, apiHead, contentType, contentLength, textField, keepAliveFields_values,
    type, length, server]

theorem staticHead_values (keepAlive : Bool) {type : Bytes} (unbroken : Unbroken type)
    (length : Nat) :
    (staticHead keepAlive type unbroken length).values isLength = [decimal length] := by
  have named : isLength (bytes "Content-Type") = false := by decide
  have announced : isLength (bytes "Content-Length") = true := by decide
  have server : isLength (bytes "Server") = false := by decide
  simp [Head.values, staticHead, contentType, contentLength, textField, keepAliveFields_values,
    named, announced, server]

/-! ### Self-delimiting responses -/

/-- The head of `/hello` announces no length, and its body is there for HEAD as well. -/
theorem helloResponse_endless (bodiless : Bool) :
    ¬SelfDelimiting isLength bodiless helloResponse := by
  rw [helloResponse_text, selfDelimiting_iff]
  cases bodiless with
  | false => decide
  | true => decide

/-- No part of the `/hello` response but the whole begins like a message. -/
theorem hello_start {out added : Bytes} (same : helloResponse = out ++ added)
    (start : bytes "HTTP/1.1 " <+: added) : out = [] := by
  have only : ∀ k < 64, bytes "HTTP/1.1 " <+: helloResponse.drop k → k = 0 := by decide
  have length : helloResponse.length < 64 := by decide
  have short : out.length < 64 := by
    have total := congrArg List.length same
    rw [List.length_append] at total
    omega
  have rest : helloResponse.drop out.length = added := by rw [same, List.drop_left]
  exact List.eq_nil_of_length_eq_zero (only _ short (rest.symm ▸ start))

/-- The bytes added to the output are self-delimiting where the response itself is. -/
theorem adds_iff {w : World} {s t : Conn} (parsed : toAnalysis w s = .ok t)
    (ready : t.http.state_ = .analysis) (success : (analysisRequest w t).2 = .success)
    (bodiless : Bool) :
    (∃ added, (readBlock w s).http.outBuffer_ = s.http.outBuffer_ ++ added ∧
      SelfDelimiting isLength bodiless added) ↔
    SelfDelimiting isLength bodiless (answered w t) := by
  rcases readBlock_success parsed ready success with appended | ⟨assigned, hello⟩
  -- What is appended is the response itself.
  · rw [appended]
    constructor
    · rintro ⟨added, same, delimited⟩
      exact List.append_cancel_left same ▸ delimited
    · exact fun delimited => ⟨_, rfl, delimited⟩
  · -- What was pending is gone, and neither the response nor a part of it ends.
    rw [assigned, hello]
    refine iff_of_false ?_ (helloResponse_endless bodiless)
    rintro ⟨added, same, delimited⟩
    have start : bytes "HTTP/1.1 " <+: added := by
      obtain ⟨head, body, rfl, _⟩ := delimited
      exact head.text_start.trans (List.prefix_append _ _)
    -- A status line starts the greeting only where nothing was before it.
    have empty := hello_start same start
    rw [empty, List.nil_append] at same
    exact helloResponse_endless bodiless (same ▸ delimited)

/-- For every request that succeeds, the bytes added to the output are a head and the body it
announces, or the head alone for HEAD, but for `/hello` and for HEAD of `/favicon.ico`. -/
theorem self_delimiting_iff {w : World} {s t : Conn} (parsed : toAnalysis w s = .ok t)
    (ready : t.http.state_ = .analysis) (success : (analysisRequest w t).2 = .success) :
    (∃ added, (readBlock w s).http.outBuffer_ = s.http.outBuffer_ ++ added ∧
      SelfDelimiting isLength (t.http.method_ = .head) added) ↔
    t.http.fileName_ ≠ bytes "hello" ∧
      ¬(t.http.method_ = .head ∧ t.http.fileName_ = bytes "favicon.ico") := by
  have names : (bytes "api/").isPrefixOf t.http.fileName_ = true →
      t.http.fileName_ ≠ bytes "hello" ∧ t.http.fileName_ ≠ bytes "favicon.ico" :=
    fun api => ⟨fun named => absurd (named ▸ api) (by decide),
      fun named => absurd (named ▸ api) (by decide)⟩
  rw [adds_iff parsed ready success]
  have route := answered_served success
  generalize answered w t = text at route ⊢
  cases route with
  | api response api answers =>
    rw [apiHead_text (handle_unbroken answers), selfDelimiting_iff, apiHead_values]
    refine iff_of_true ?_ ⟨(names api).1, fun icon => (names api).2 icon.2⟩
    by_cases head : t.http.method_ = .head
    · simp [head]
    · simp [head]
  | hello _ hello => exact iff_of_false (helloResponse_endless _) fun named => named.1 hello
  | favicon _ icon =>
    rw [faviconHeader_text, selfDelimiting_iff, staticHead_values]
    -- The image follows the head whatever the method.
    have image : favicon ≠ [] := List.cons_ne_nil _ _
    have hello : t.http.fileName_ ≠ bytes "hello" :=
      fun hello => absurd (hello.symm.trans icon) (by decide)
    by_cases head : t.http.method_ = .head
    · simp [head, icon, image]
    · simp [head, hello]
  | file sbuf body _ _ hello icon _ content =>
    rw [fileHeader_text, selfDelimiting_iff, staticHead_values]
    refine iff_of_true ?_ ⟨hello, fun both => icon both.2⟩
    by_cases head : t.http.method_ = .head
    · rw [if_pos head] at content
      simp [head, content]
    · rw [if_neg head] at content
      obtain ⟨_, src, _, rfl⟩ := content
      simp [head, src.2]

/-- A request for what the gateway reports of itself. -/
def healthGet : Bytes := bytes "GET /api/health HTTP/1.1\r\nA: b\r\n\r\n"

theorem self_delimiting_iff_health : ∃ t, toAnalysis .bare (.reading healthGet) = .ok t ∧
    ∃ added, (readBlock .bare (.reading healthGet)).http.outBuffer_ =
        (Conn.reading healthGet).http.outBuffer_ ++ added ∧
      SelfDelimiting isLength (t.http.method_ = .head) added := by
  have parsed : toAnalysis .bare (.reading healthGet) =
      .ok (outcome (toAnalysis .bare (.reading healthGet))) := eq_ok_outcome (by decide)
  obtain ⟨ready, get, health, success⟩ :
      (outcome (toAnalysis .bare (.reading healthGet))).http.state_ = .analysis ∧
      (outcome (toAnalysis .bare (.reading healthGet))).http.method_ = .get ∧
      (outcome (toAnalysis .bare (.reading healthGet))).http.fileName_ = bytes "api/health" ∧
      (analysisRequest .bare (outcome (toAnalysis .bare (.reading healthGet)))).2 = .success := by
    decide
  refine ⟨_, parsed, (self_delimiting_iff parsed ready success).mpr ?_⟩
  rw [get, health]
  decide

/-- The answer to `GET /hello` announces no length. -/
theorem hello_has_no_length : ∃ s t, toAnalysis .bare s = .ok t ∧ t.http.state_ = .analysis ∧
    (analysisRequest .bare t).2 = .success ∧ t.http.method_ = .get ∧
    ¬∃ added, (readBlock .bare s).http.outBuffer_ = s.http.outBuffer_ ++ added ∧
      SelfDelimiting isLength false added := by
  let s := Conn.reading (bytes "GET /hello HTTP/1.1\r\nA: b\r\n\r\n")
  -- The path is the one of the greeting, which sets no length.
  have parsed : toAnalysis .bare s = .ok (outcome (toAnalysis .bare s)) :=
    eq_ok_outcome (by decide)
  obtain ⟨ready, success, get, hello⟩ :
      (outcome (toAnalysis .bare s)).http.state_ = .analysis ∧
      (analysisRequest .bare (outcome (toAnalysis .bare s))).2 = .success ∧
      (outcome (toAnalysis .bare s)).http.method_ = .get ∧
      (outcome (toAnalysis .bare s)).http.fileName_ = bytes "hello" := by decide
  refine ⟨s, _, parsed, ready, success, get, ?_⟩
  rw [adds_iff parsed ready success,
    answered_hello (by rw [hello]; decide) (by rw [get]; decide) hello]
  exact helloResponse_endless false

/-! ### HEAD and GET -/

/-- Two texts that continue the same head. -/
theorem sameHead_of (head : Head) (body body' : Bytes) :
    SameHead (head.text ++ body) (head.text ++ body') := ⟨head, body, body', rfl, rfl⟩

theorem answered_page_head (err_num : Nat) {msg : Bytes} (unbroken : Unbroken msg) :
    errorPage err_num msg =
      (errorHead err_num msg unbroken).text ++ errorBody err_num (bytes " " ++ msg) := by
  unfold errorPage
  rw [errorHeader_text err_num unbroken]

/-- A page that reports an error does not begin like the head of a file. -/
theorem not_sameHead_page (keepAlive : Bool) (fileName : Bytes) (st_size : Nat) (body : Bytes) :
    ¬SameHead (errorPage 404 (bytes "Not Found!"))
      (fileHeader keepAlive fileName st_size ++ body) := by
  intro same
  have start := same.start
  -- The status codes differ in their first digit.
  have refused : (errorPage 404 (bytes "Not Found!")).take 10 = bytes "HTTP/1.1 4" := by
    decide
  have served : (fileHeader keepAlive fileName st_size ++ body).take 10 =
      bytes "HTTP/1.1 2" := by
    have status : bytes "HTTP/1.1 200 OK\r\n" =
        bytes "HTTP/1.1 2" ++ bytes "00 OK\r\n" := by decide
    unfold fileHeader staticHeader
    rw [status]
    simp only [List.append_assoc]
    exact List.take_left' (by decide)
  rw [refused, served] at start
  exact absurd start (by decide)

/-- A GET and a HEAD of the same target with the same headers, answered from the same files and
by the same gateway, get the same status line and header lines, but for a file that is there
and cannot be opened or mapped. -/
theorem head_get_agreement_iff {w : World} {s s' get head : Conn}
    (parsed : toAnalysis w s = .ok get) (parsed' : toAnalysis w s' = .ok head)
    (ready : get.http.state_ = .analysis) (ready' : head.http.state_ = .analysis)
    (isGet : get.http.method_ = .get) (isHead : head.http.method_ = .head)
    (target : head.http.fileName_ = get.http.fileName_)
    (headers : head.http.headers_ = get.http.headers_)
    (answers : head.wire.served = get.wire.served) :
    SameHead (response w s) (response w s') ↔
      ∀ path sbuf, get.http.statPath = some path → w.fs get.wire.served path = some sbuf →
        sbuf.opened = true ∧ sbuf.mapped.isSome = true := by
  have keepAlive : head.http.isKeepAliveRequested = get.http.isKeepAliveRequested :=
    HttpData.isKeepAliveRequested_congr headers
  have posted : get.http.method_ ≠ .post := by rw [isGet]; nofun
  have posted' : head.http.method_ ≠ .post := by rw [isHead]; nofun
  rw [response_analysed parsed ready, response_analysed parsed' ready']
  by_cases api : (bytes "api/").isPrefixOf get.http.fileName_ = true
  · have api' : (bytes "api/").isPrefixOf head.http.fileName_ = true := target ▸ api
    obtain ⟨answer, serves, text⟩ :=
      answered_api api (analysisRequest_api_success (w := w) api (absurd · posted))
    obtain ⟨answer', serves', text'⟩ :=
      answered_api api' (analysisRequest_api_success (w := w) api' (absurd · posted'))
    -- The gateway cannot tell the two requests apart.
    have blank : get.http.apiBody = [] := if_neg posted
    have blank' : head.http.apiBody = [] := if_neg posted'
    rw [isGet, blank] at serves
    rw [isHead, blank', target, answers] at serves'
    obtain rfl : answer' = answer := Option.some.inj (serves'.symm.trans serves)
    have unasked : get.http.statPath = none := if_pos (.inl api)
    rw [text, text', keepAlive, apiHead_text (handle_unbroken serves), unasked]
    exact iff_of_true (sameHead_of _ _ _) nofun
  have api' : ¬(bytes "api/").isPrefixOf head.http.fileName_ = true := target ▸ api
  by_cases hello : get.http.fileName_ = bytes "hello"
  · have unasked : get.http.statPath = none := if_pos (.inr (.inr (.inl hello)))
    rw [answered_hello api posted hello, answered_hello api' posted' (target.trans hello),
      helloResponse_text, unasked]
    exact iff_of_true (sameHead_of _ _ _) nofun
  have hello' : head.http.fileName_ ≠ bytes "hello" := target ▸ hello
  by_cases icon : get.http.fileName_ = bytes "favicon.ico"
  · have unasked : get.http.statPath = none := if_pos (.inr (.inr (.inr icon)))
    rw [answered_favicon api posted hello icon, answered_favicon api' posted' hello'
      (target.trans icon), keepAlive, faviconHeader_text, unasked]
    exact iff_of_true (sameHead_of _ _ _) nofun
  have icon' : head.http.fileName_ ≠ bytes "favicon.ico" := target ▸ icon
  have asked : get.http.statPath = some (cStr get.http.fileName_) :=
    if_neg (not_or.mpr ⟨api, not_or.mpr ⟨posted, not_or.mpr ⟨hello, icon⟩⟩⟩)
  rw [asked]
  have consulted : (∀ path sbuf, some (cStr get.http.fileName_) = some path →
        w.fs get.wire.served path = some sbuf → sbuf.opened = true ∧ sbuf.mapped.isSome = true) ↔
      ∀ sbuf, w.fs get.wire.served (cStr get.http.fileName_) = some sbuf →
        sbuf.opened = true ∧ sbuf.mapped.isSome = true := by
    constructor
    · exact fun all sbuf there => all _ sbuf rfl there
    · rintro all _ sbuf ⟨⟩ there
      exact all sbuf there
  rw [consulted]
  cases found : w.fs get.wire.served (cStr get.http.fileName_) with
  | none =>
    have found' : w.fs head.wire.served (cStr head.http.fileName_) = none := by
      rw [answers, target]; exact found
    rw [(answered_missing api posted hello icon found).1,
      (answered_missing api' posted' hello' icon' found').1, answered_page_head 404 (by decide)]
    exact iff_of_true (sameHead_of _ _ _) nofun
  | some sbuf =>
    have found' : w.fs head.wire.served (cStr head.http.fileName_) = some sbuf := by
      rw [answers, target]; exact found
    rw [answered_head api' posted' hello' icon' found' isHead, keepAlive, target]
    have notHead : get.http.method_ ≠ .head := by rw [isGet]; nofun
    simp only [Option.some.injEq, forall_eq']
    by_cases readable : sbuf.opened = true ∧ sbuf.mapped.isSome = true
    · obtain ⟨src, mapped⟩ := Option.isSome_iff_exists.mp readable.2
      rw [answered_mapped api posted hello icon found notHead readable.1 mapped, fileHeader_text]
      exact iff_of_true ⟨_, _, [], rfl, (List.append_nil _).symm⟩ readable
    · -- HEAD has answered before the file is opened; GET goes on and fails.
      rw [(answered_unreadable api posted hello icon found notHead readable).1]
      refine iff_of_false ?_ readable
      have differs := not_sameHead_page get.http.isKeepAliveRequested get.http.fileName_
        sbuf.st_size []
      rwa [List.append_nil] at differs

def healthHead : Bytes := bytes "HEAD /api/health HTTP/1.1\r\nA: b\r\n\r\n"

theorem head_get_agreement_iff_health :
    SameHead (response .bare (.reading healthGet)) (response .bare (.reading healthHead)) := by
  have parsed : toAnalysis .bare (.reading healthGet) =
      .ok (outcome (toAnalysis .bare (.reading healthGet))) := eq_ok_outcome (by decide)
  have parsed' : toAnalysis .bare (.reading healthHead) =
      .ok (outcome (toAnalysis .bare (.reading healthHead))) := eq_ok_outcome (by decide)
  obtain ⟨ready, isGet, ready', isHead⟩ :
      (outcome (toAnalysis .bare (.reading healthGet))).http.state_ = .analysis ∧
      (outcome (toAnalysis .bare (.reading healthGet))).http.method_ = .get ∧
      (outcome (toAnalysis .bare (.reading healthHead))).http.state_ = .analysis ∧
      (outcome (toAnalysis .bare (.reading healthHead))).http.method_ = .head := by decide
  obtain ⟨target, headers, answers⟩ :
      (outcome (toAnalysis .bare (.reading healthHead))).http.fileName_ =
        (outcome (toAnalysis .bare (.reading healthGet))).http.fileName_ ∧
      (outcome (toAnalysis .bare (.reading healthHead))).http.headers_ =
        (outcome (toAnalysis .bare (.reading healthGet))).http.headers_ ∧
      (outcome (toAnalysis .bare (.reading healthHead))).wire.served =
        (outcome (toAnalysis .bare (.reading healthGet))).wire.served := by decide
  refine (head_get_agreement_iff parsed parsed' ready ready' isGet isHead target headers
    answers).mpr ?_
  intro path sbuf _ there
  cases there

/-- A world in which every file is empty: `open` succeeds and `mmap` of no bytes fails. -/
def World.empty : World := { World.bare with fs := fun _ _ => some ⟨0, true, none⟩ }

/-- An empty file is there for HEAD and not for GET. -/
theorem empty_file_heads_differ : ∃ s s' get head, toAnalysis .empty s = .ok get ∧
    toAnalysis .empty s' = .ok head ∧ get.http.state_ = .analysis ∧
    head.http.state_ = .analysis ∧ get.http.method_ = .get ∧ head.http.method_ = .head ∧
    head.http.fileName_ = get.http.fileName_ ∧ head.http.headers_ = get.http.headers_ ∧
    head.wire.served = get.wire.served ∧ ¬SameHead (response .empty s) (response .empty s') := by
  let s := Conn.reading (bytes "GET /a.txt HTTP/1.1\r\nA: b\r\n\r\n")
  let s' := Conn.reading (bytes "HEAD /a.txt HTTP/1.1\r\nA: b\r\n\r\n")
  have parsed : toAnalysis .empty s = .ok (outcome (toAnalysis .empty s)) :=
    eq_ok_outcome (by decide)
  have parsed' : toAnalysis .empty s' = .ok (outcome (toAnalysis .empty s')) :=
    eq_ok_outcome (by decide)
  -- The GET is refused, for an empty file cannot be mapped, and the HEAD is served.
  have starts : (response .empty s).take 10 ≠ (response .empty s').take 10 := by decide
  obtain ⟨ready, ready', isGet, isHead, target, headers, answers⟩ :
      (outcome (toAnalysis .empty s)).http.state_ = .analysis ∧
      (outcome (toAnalysis .empty s')).http.state_ = .analysis ∧
      (outcome (toAnalysis .empty s)).http.method_ = .get ∧
      (outcome (toAnalysis .empty s')).http.method_ = .head ∧
      (outcome (toAnalysis .empty s')).http.fileName_ =
        (outcome (toAnalysis .empty s)).http.fileName_ ∧
      (outcome (toAnalysis .empty s')).http.headers_ =
        (outcome (toAnalysis .empty s)).http.headers_ ∧
      (outcome (toAnalysis .empty s')).wire.served =
        (outcome (toAnalysis .empty s)).wire.served := by decide
  exact ⟨s, s', _, _, parsed, parsed', ready, ready', isGet, isHead, target, headers, answers,
    fun same => starts same.start⟩

end LightAgent

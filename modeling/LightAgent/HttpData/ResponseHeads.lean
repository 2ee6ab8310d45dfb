import LightAgent.HttpData.BodyFraming
import LightAgent.HttpData.Replies
import LightAgent.Library.HttpMessage

/-!
# The heads of the responses

Every route builds its own header block. Each of them is the text of a `Head`, and what a
request that succeeds adds to the output is such a head with the body of its route.
-/
namespace LightAgent

open Library

/-- The `Content-Length` header, in any case. -/
def isLength (name : Bytes) : Bool := toLowerCopy name = bytes "content-length"

def textField (name value : String) (unbroken : Unbroken (bytes name) ∧ Unbroken (bytes value))
    (named : bytes name ≠ [] ∧ 58 ∉ bytes name) : Field :=
  ⟨bytes name, bytes value, unbroken, named⟩

def contentType (value : Bytes) (unbroken : Unbroken value) : Field :=
  ⟨bytes "Content-Type", value, ⟨by decide, unbroken⟩, by decide⟩

def contentLength (n : Nat) : Field :=
  ⟨bytes "Content-Length", decimal n, ⟨by decide, decimal_unbroken n⟩, by decide⟩

/-- The lines of `keepAliveHeader`. -/
def keepAliveFields (keepAlive : Bool) : List Field :=
  if keepAlive then
    [textField "Connection" "Keep-Alive" (by decide) (by decide),
      ⟨bytes "Keep-Alive", bytes "timeout=" ++ decimal DEFAULT_KEEP_ALIVE_TIME,
        ⟨by decide, Unbroken.append (by decide) (decimal_unbroken _)⟩, by decide⟩]
  else []

/-- A line as the routes write it. -/
theorem Field.ended (field : Field) :
    field.line ++ [13, 10] = field.name ++ bytes ": " ++ field.value ++ bytes "\r\n" := by
  have crlf : bytes "\r\n" = [13, 10] := by decide
  rw [crlf]
  rfl

/-- The text of a head, line by line. -/
theorem Head.text_eq (head : Head) : head.text =
    bytes "HTTP/1.1 " ++ decimal head.code ++ bytes " " ++ head.reason ++ bytes "\r\n" ++
      (head.fields.flatMap fun field =>
        field.name ++ bytes ": " ++ field.value ++ bytes "\r\n") ++ bytes "\r\n" := by
  have crlf : bytes "\r\n" = [13, 10] := by decide
  simp only [← Field.ended]
  rw [crlf]
  simp [Head.text, statusLine]

theorem flatMap_keepAlive (keepAlive : Bool) :
    ((keepAliveFields keepAlive).flatMap fun field =>
      field.name ++ bytes ": " ++ field.value ++ bytes "\r\n") =
    if keepAlive then keepAliveHeader else [] := by
  cases keepAlive with
  | false => rfl
  | true => decide

/-! ### The API routes -/

/-- Status text and type of a gateway response fit in a line. -/
theorem handle_unbroken {view : LightAgentGateway.View} {request : LightAgentGateway.Request}
    {response : LightAgentGateway.Response}
    (answers : LightAgentGateway.handle view request = some response) :
    Unbroken response.reason ∧ Unbroken response.contentType := by
  have json (statusCode : Nat) {reason : Bytes} (body : Bytes) (unbroken : Unbroken reason) :
      Unbroken (LightAgentGateway.jsonResponse statusCode reason body).reason ∧
        Unbroken (LightAgentGateway.jsonResponse statusCode reason body).contentType :=
    ⟨unbroken, (by decide : Unbroken (bytes "application/json; charset=utf-8"))⟩
  unfold LightAgentGateway.handle at answers
  repeat' split at answers
  all_goals cases answers
  all_goals exact json _ _ (by decide)

def apiHead (response : LightAgentGateway.Response) (keepAlive : Bool)
    (unbroken : Unbroken response.reason ∧ Unbroken response.contentType) : Head where
  code := response.statusCode
  reason := response.reason
  fields := [contentType response.contentType unbroken.2, contentLength response.body.length,
    textField "Server" "LightAgent Gateway" (by decide) (by decide)] ++ keepAliveFields keepAlive
  unbroken := unbroken.1

theorem apiHead_text {response : LightAgentGateway.Response} {keepAlive : Bool}
    (unbroken : Unbroken response.reason ∧ Unbroken response.contentType) :
    apiHeader response keepAlive = (apiHead response keepAlive unbroken).text := by
  have type : bytes "Content-Type: " = bytes "Content-Type" ++ bytes ": " := by decide
  have length : bytes "Content-Length: " = bytes "Content-Length" ++ bytes ": " := by decide
  have server : bytes "Server: LightAgent Gateway\r\n" =
      bytes "Server" ++ bytes ": " ++ bytes "LightAgent Gateway" ++ bytes "\r\n" := by decide
  rw [Head.text_eq]
  simp only [apiHead, List.flatMap_append, flatMap_keepAlive]
  simp only [apiHeader, type, length, server, List.flatMap_cons, List.flatMap_nil, contentType,
    contentLength, textField, List.append_assoc, List.nil_append]

/-! ### The static routes -/

theorem getMime_unbroken (suffix : Bytes) : Unbroken (getMime suffix) := by
  have table : ∀ e ∈ mime, Unbroken (bytes e.2) := by decide
  unfold getMime
  split
  next e found => exact table e (List.mem_of_find?_eq_some found)
  next => decide

theorem fileType_unbroken (fileName : Bytes) : Unbroken (fileType fileName) := by
  unfold fileType
  dsimp only
  split
  · exact getMime_unbroken _
  · exact getMime_unbroken _

def staticHead (keepAlive : Bool) (type : Bytes) (unbroken : Unbroken type) (length : Nat) :
    Head where
  code := 200
  reason := bytes "OK"
  fields := keepAliveFields keepAlive ++ [contentType type unbroken, contentLength length,
    textField "Server" "LinYa's Web Server" (by decide) (by decide)]
  unbroken := by decide

theorem staticHead_text {keepAlive : Bool} {type : Bytes} (unbroken : Unbroken type)
    (length : Nat) : staticHeader keepAlive ++ bytes "Content-Type: " ++ type ++ bytes "\r\n" ++
      bytes "Content-Length: " ++ decimal length ++ bytes "\r\n" ++
      bytes "Server: LinYa's Web Server\r\n" ++ bytes "\r\n" =
    (staticHead keepAlive type unbroken length).text := by
  -- The literals of the source, split where a head has its parts.
  have status : bytes "HTTP/1.1 200 OK\r\n" =
      bytes "HTTP/1.1 " ++ decimal 200 ++ bytes " " ++ bytes "OK" ++ bytes "\r\n" := by decide
  have named : bytes "Content-Type: " = bytes "Content-Type" ++ bytes ": " := by decide
  have announced : bytes "Content-Length: " = bytes "Content-Length" ++ bytes ": " := by decide
  have server : bytes "Server: LinYa's Web Server\r\n" =
      bytes "Server" ++ bytes ": " ++ bytes "LinYa's Web Server" ++ bytes "\r\n" := by decide
  rw [Head.text_eq]
  simp only [staticHead, List.flatMap_append, flatMap_keepAlive]
  simp only [staticHeader, status, named, announced, server, List.flatMap_cons, List.flatMap_nil,
    contentType, contentLength, textField, List.append_assoc, List.append_nil]

theorem fileHeader_text (keepAlive : Bool) (fileName : Bytes) (st_size : Nat) :
    fileHeader keepAlive fileName st_size =
      (staticHead keepAlive (fileType fileName) (fileType_unbroken fileName) st_size).text :=
  staticHead_text _ _

theorem faviconHeader_text (keepAlive : Bool) :
    faviconHeader keepAlive =
      (staticHead keepAlive (bytes "image/png") (by decide) favicon.length).text := by
  have type : bytes "Content-Type: image/png\r\n" =
      bytes "Content-Type: " ++ bytes "image/png" ++ bytes "\r\n" := by decide
  rw [← staticHead_text]
  unfold faviconHeader
  rw [type]
  simp only [List.append_assoc]

/-- The head of `/hello` announces no length. -/
def helloHead : Head where
  code := 200
  reason := bytes "OK"
  fields := [textField "Content-type" "text/plain" (by decide) (by decide)]
  unbroken := by decide

theorem helloResponse_text : helloResponse = helloHead.text ++ bytes "Hello World" := by
  decide

/-! ### The error page -/

def errorHead (err_num : Nat) (msg : Bytes) (unbroken : Unbroken msg) : Head where
  code := err_num
  reason := msg
  fields := [textField "Content-Type" "text/html" (by decide) (by decide),
    textField "Connection" "Close" (by decide) (by decide),
    contentLength (errorBody err_num (bytes " " ++ msg)).length,
    textField "Server" "LinYa's Web Server" (by decide) (by decide)]
  unbroken := unbroken

theorem errorHeader_text (err_num : Nat) {msg : Bytes} (unbroken : Unbroken msg) :
    errorHeader err_num (bytes " " ++ msg) = (errorHead err_num msg unbroken).text := by
  have type : bytes "Content-Type: text/html\r\n" =
      bytes "Content-Type" ++ bytes ": " ++ bytes "text/html" ++ bytes "\r\n" := by decide
  have close : bytes "Connection: Close\r\n" =
      bytes "Connection" ++ bytes ": " ++ bytes "Close" ++ bytes "\r\n" := by decide
  have length : bytes "Content-Length: " = bytes "Content-Length" ++ bytes ": " := by decide
  have server : bytes "Server: LinYa's Web Server\r\n" =
      bytes "Server" ++ bytes ": " ++ bytes "LinYa's Web Server" ++ bytes "\r\n" := by decide
  rw [Head.text_eq]
  simp only [errorHeader, errorHead, type, close, length, server, List.flatMap_cons,
    List.flatMap_nil, contentLength, textField, List.append_assoc, List.append_nil]

/-! ### The response of a request -/

/-- What `analysisRequest` produces on a connection that owes nothing and whose socket takes
everything. -/
def answered (w : World) (s : Conn) : Bytes :=
  let t := (analysisRequest w (s.withOutput [] [] [])).1
  t.wire.sent ++ t.http.outBuffer_

/-- The stages before the analysis go on alike whatever output is pending. -/
theorem toAnalysis_withOutput {w : World} {s t : Conn} (parsed : toAnalysis w s = .ok t)
    (out sent : Bytes) (writes : List WriteResult) :
    toAnalysis w (s.withOutput out sent writes) = .ok (t.withOutput out sent writes) ∧
      t.http.outBuffer_ = s.http.outBuffer_ := by
  have own (run : Except Conn Conn)
      (eq : toAnalysis w (s.withOutput s.http.outBuffer_ s.wire.sent s.wire.writes) = run) :
      run = .ok t := eq.symm.trans parsed
  cases toAnalysis_blind w s with
  | waits s' eq => cases own _ (eq _ _ _)
  | rejects s' msg _ _ eq => cases own _ (eq _ _ _)
  | goesOn s' eq =>
    cases own _ (eq _ _ _)
    exact ⟨eq out sent writes, rfl⟩

theorem response_analysed {w : World} {s t : Conn} (parsed : toAnalysis w s = .ok t)
    (ready : t.http.state_ = .analysis) : response w s = answered w t := by
  have run : readBlock w (s.withOutput [] [] []) = analyse w (t.withOutput [] [] []) :=
    readBlock_of_ok (toAnalysis_withOutput parsed [] [] []).1 ready
  unfold response answered
  rw [run]
  rcases analyse_cases w (t.withOutput [] [] []) with ⟨_, done⟩ | ⟨_, done⟩
  · rw [done]
    rfl
  · rw [done]
    rfl

/-- Where a request succeeds, the response is on top of the output or, for `/hello`, is all
of it. -/
theorem readBlock_success {w : World} {s t : Conn} (parsed : toAnalysis w s = .ok t)
    (ready : t.http.state_ = .analysis) (success : (analysisRequest w t).2 = .success) :
    (readBlock w s).http.outBuffer_ = s.http.outBuffer_ ++ answered w t ∨
      (readBlock w s).http.outBuffer_ = helloResponse ∧ answered w t = helloResponse := by
  have pending := (toAnalysis_withOutput parsed [] [] []).2
  have run : (readBlock w s).http.outBuffer_ = (analysisRequest w t).1.http.outBuffer_ := by
    rw [readBlock_of_ok parsed ready, analyse_success success]
    rfl
  obtain ⟨reply, answers⟩ := analysisRequest_blind w t
  obtain ⟨here, failed⟩ := answers t.http.outBuffer_ t.wire.sent t.wire.writes
  -- The same reply makes the text on a connection that owes nothing.
  have alone := (answers [] [] []).1
  rw [run, ← pending]
  unfold answered
  dsimp only
  change Replies _ _ _ (analysisRequest w t).1 reply at here
  cases reply with
  | quiet =>
    cases here with
    | quiet kept _ =>
    cases alone with
    | quiet kept' unsent => rw [kept, kept', unsent]; exact .inl (List.append_nil _).symm
  | appends added =>
    cases here with
    | appends _ kept _ =>
    cases alone with
    | appends _ kept' unsent => rw [kept, kept', unsent]; exact .inl rfl
  | hello =>
    cases here with
    | hello assigned _ =>
    cases alone with
    | hello assigned' unsent => rw [assigned, assigned', unsent]; exact .inr ⟨rfl, rfl⟩
  | page err_num msg =>
    have refused : (analysisRequest w t).2 = .error := failed err_num msg rfl
    rw [success] at refused
    cases refused

/-! ### Route by route -/

/-- What an API request hands to the gateway as its body. -/
def HttpData.apiBody (h : HttpData) : Bytes :=
  if h.method_ = .post then h.inBuffer_.take (h.getContentLength.getD 0) else []

/-- An API request that succeeds is answered by the gateway. -/
theorem answered_api {w : World} {t : Conn}
    (api : (bytes "api/").isPrefixOf t.http.fileName_ = true)
    (success : (analysisRequest w t).2 = .success) : ∃ response,
    LightAgentGateway.handle (w.gateway t.wire.served)
      ⟨toGatewayMethod t.http.method_, bytes "/" ++ t.http.fileName_, t.http.apiBody⟩ =
        some response ∧
    answered w t = apiHeader response t.http.isKeepAliveRequested ++
      if t.http.method_ ≠ .head then response.body else [] := by
  obtain ⟨response, answers⟩ := handle_api (w.gateway t.wire.served)
    (toGatewayMethod t.http.method_) api t.http.apiBody
  refine ⟨response, answers, ?_⟩
  -- Once the body is delimited the answer is the same on every connection.
  have serves (contentLength : Option Nat) {body : Bytes} (delimited : t.http.apiBody = body)
      (run : analysisRequest w (t.withOutput [] [] []) =
        answerApiRequest (w.gateway t.wire.served)
          ({ t with wire := { t.wire with served := t.wire.served + 1 } }.withOutput [] [] [])
          contentLength body) :
      answered w t = apiHeader response t.http.isKeepAliveRequested ++
        if t.http.method_ ≠ .head then response.body else [] := by
    rw [delimited] at answers
    unfold answered
    rw [run]
    unfold answerApiRequest
    dsimp only [Conn.withOutput]
    rw [answers]
    rfl
  by_cases post : t.http.method_ = .post
  · rw [analysisRequest_api w api] at success
    unfold analysisApiRequest at success
    rw [if_pos post] at success
    cases declared : t.http.getContentLength with
    | none =>
      rw [declared] at success
      cases success
    | some contentLength =>
      rw [declared] at success
      dsimp only at success
      split at success
      · cases success
      next enough =>
        have delimits : (t.withOutput [] [] []).http.getContentLength = some contentLength :=
          declared
        have delimited : t.http.apiBody = t.http.inBuffer_.take contentLength := by
          unfold HttpData.apiBody
          rw [if_pos post, declared]
          rfl
        apply serves (some contentLength) delimited
        refine (analysisRequest_api w (s := t.withOutput [] [] []) api).trans ?_
        unfold analysisApiRequest
        dsimp only
        rw [if_pos (show (t.withOutput [] [] []).http.method_ = .post from post), delimits]
        exact if_neg enough
  · apply serves none (if_neg post)
    refine (analysisRequest_api w (s := t.withOutput [] [] []) api).trans ?_
    exact if_neg post

/-- A request that is complete succeeds on every API route. -/
theorem analysisRequest_api_success {w : World} {t : Conn}
    (api : (bytes "api/").isPrefixOf t.http.fileName_ = true)
    (body : t.http.method_ = .post →
      ∃ n : Nat, t.http.getContentLength = some n ∧ (n : Int) ≤ toInt t.http.inBuffer_.length) :
    (analysisRequest w t).2 = .success := by
  -- Every path below `api/` has a route.
  have serves (s : Conn) (contentLength : Option Nat) (body : Bytes)
      (same : s.http.fileName_ = t.http.fileName_) :
      (answerApiRequest (w.gateway t.wire.served) s contentLength body).2 = .success := by
    obtain ⟨response, answers⟩ := handle_api (w.gateway t.wire.served)
      (toGatewayMethod s.http.method_) (same ▸ api) body
    unfold answerApiRequest
    dsimp only
    rw [answers]
  rw [analysisRequest_api w api]
  unfold analysisApiRequest
  dsimp only
  by_cases post : t.http.method_ = .post
  · obtain ⟨n, length, enough⟩ := body post
    rw [if_pos post, length]
    dsimp only
    -- A body that is complete is not refused.
    rw [if_neg (Int.not_lt.mpr enough)]
    exact serves _ _ _ rfl
  · rw [if_neg post]
    exact serves _ _ _ rfl

/-- A page on a connection that owes nothing is all of the answer. -/
theorem page_alone (s : Conn) {h : HttpData} (empty : h.outBuffer_ = []) :
    let t := handleError ((s.withOutput [] [] []).setHttp h) 404 (bytes "Not Found!")
    t.wire.sent ++ t.http.outBuffer_ = errorPage 404 (bytes "Not Found!") := by
  have free : Unblocked ((s.withOutput [] [] []).setHttp h).wire.writes :=
    fun _ member => absurd member List.not_mem_nil
  dsimp only
  rw [handleError_http, (handleError_unblocked free 404 _).1]
  change [] ++ _ ++ h.outBuffer_ = _
  rw [empty, List.nil_append, List.append_nil]

section Static

variable {w : World} {t : Conn} (api : ¬(bytes "api/").isPrefixOf t.http.fileName_ = true)
  (other : t.http.method_ ≠ .post)

include api other

theorem answered_static : answered w t =
    let t' := (analysisStaticRequest (w.fs t.wire.served)
      ({ t with wire := { t.wire with served := t.wire.served + 1 } }.withOutput [] [] [])).1
    t'.wire.sent ++ t'.http.outBuffer_ := by
  unfold answered
  rw [analysisRequest_static w (s := t.withOutput [] [] []) api other]
  rfl

theorem answered_hello (hello : t.http.fileName_ = bytes "hello") :
    answered w t = helloResponse := by
  rw [answered_static api other]
  unfold analysisStaticRequest
  dsimp only [Conn.withOutput]
  rw [if_pos hello]
  rfl

variable (hello : t.http.fileName_ ≠ bytes "hello")

include hello

theorem answered_favicon (icon : t.http.fileName_ = bytes "favicon.ico") :
    answered w t = faviconHeader t.http.isKeepAliveRequested ++ favicon := by
  rw [answered_static api other]
  unfold analysisStaticRequest
  dsimp only [Conn.withOutput]
  rw [if_neg hello, if_pos icon]
  change [] ++ ([] ++ faviconHeader t.http.isKeepAliveRequested ++ favicon) = _
  rw [List.nil_append, List.nil_append]

variable (icon : t.http.fileName_ ≠ bytes "favicon.ico")

include icon

theorem answered_missing (missing : w.fs t.wire.served (cStr t.http.fileName_) = none) :
    answered w t = errorPage 404 (bytes "Not Found!") ∧ (analysisRequest w t).2 = .error := by
  constructor
  · rw [answered_static api other]
    unfold analysisStaticRequest
    dsimp only [Conn.withOutput]
    rw [if_neg hello, if_neg icon, missing]
    exact page_alone { t with wire := { t.wire with served := t.wire.served + 1 } } rfl
  · rw [analysisRequest_static w api other]
    unfold analysisStaticRequest
    dsimp only
    rw [if_neg hello, if_neg icon, missing]

variable {sbuf : FileStat} (found : w.fs t.wire.served (cStr t.http.fileName_) = some sbuf)

include found

theorem answered_head (head : t.http.method_ = .head) :
    answered w t = fileHeader t.http.isKeepAliveRequested t.http.fileName_ sbuf.st_size := by
  rw [answered_static api other]
  unfold analysisStaticRequest
  dsimp only [Conn.withOutput]
  rw [if_neg hello, if_neg icon, found]
  dsimp only
  rw [if_pos head]
  rfl

variable (get : t.http.method_ ≠ .head)

include get

theorem answered_mapped {src : { data : Bytes // data.length = sbuf.st_size }}
    (opened : sbuf.opened = true) (mapped : sbuf.mapped = some src) : answered w t =
      fileHeader t.http.isKeepAliveRequested t.http.fileName_ sbuf.st_size ++ src.1 := by
  rw [answered_static api other]
  unfold analysisStaticRequest
  dsimp only [Conn.withOutput]
  rw [if_neg hello, if_neg icon, found]
  dsimp only
  rw [if_neg get, if_neg (by simp [opened]), mapped]
  rfl

/-- A file that cannot be read is answered like one that is not there, though only for GET. -/
theorem answered_unreadable (failed : ¬(sbuf.opened = true ∧ sbuf.mapped.isSome = true)) :
    answered w t = errorPage 404 (bytes "Not Found!") ∧ (analysisRequest w t).2 = .error := by
  have mapped (opened : sbuf.opened = true) : sbuf.mapped = none := by
    simpa using fun some => failed ⟨opened, some⟩
  constructor
  · rw [answered_static api other]
    unfold analysisStaticRequest
    dsimp only [Conn.withOutput]
    rw [if_neg hello, if_neg icon, found]
    dsimp only
    rw [if_neg get]
    -- The file cannot be opened, or it is empty and cannot be mapped.
    split
    · exact page_alone { t with wire := { t.wire with served := t.wire.served + 1 } } rfl
    next opened =>
      rw [mapped (by simpa using opened)]
      exact page_alone { t with wire := { t.wire with served := t.wire.served + 1 } } rfl
  · rw [analysisRequest_static w api other]
    unfold analysisStaticRequest
    dsimp only
    rw [if_neg hello, if_neg icon, found]
    dsimp only
    rw [if_neg get]
    split
    · rfl
    next opened => rw [mapped (by simpa using opened)]; rfl

end Static

/-- The responses to requests that succeed, route by route. -/
inductive Served (w : World) (t : Conn) : Bytes → Prop
  | api (response : LightAgentGateway.Response) :
      (bytes "api/").isPrefixOf t.http.fileName_ = true →
      LightAgentGateway.handle (w.gateway t.wire.served)
        ⟨toGatewayMethod t.http.method_, bytes "/" ++ t.http.fileName_, t.http.apiBody⟩ =
          some response →
      Served w t (apiHeader response t.http.isKeepAliveRequested ++
        if t.http.method_ ≠ .head then response.body else [])
  | hello : t.http.method_ ≠ .post → t.http.fileName_ = bytes "hello" → Served w t helloResponse
  | favicon : t.http.method_ ≠ .post → t.http.fileName_ = bytes "favicon.ico" →
      Served w t (faviconHeader t.http.isKeepAliveRequested ++ favicon)
  | file (sbuf : FileStat) (body : Bytes) : t.http.method_ ≠ .post →
      ¬(bytes "api/").isPrefixOf t.http.fileName_ = true → t.http.fileName_ ≠ bytes "hello" →
      t.http.fileName_ ≠ bytes "favicon.ico" →
      w.fs t.wire.served (cStr t.http.fileName_) = some sbuf →
      (if t.http.method_ = .head then body = [] else
        sbuf.opened = true ∧ ∃ src, sbuf.mapped = some src ∧ src.1 = body) →
      Served w t (fileHeader t.http.isKeepAliveRequested t.http.fileName_ sbuf.st_size ++ body)

theorem answered_served {w : World} {t : Conn} (success : (analysisRequest w t).2 = .success) :
    Served w t (answered w t) := by
  by_cases api : (bytes "api/").isPrefixOf t.http.fileName_ = true
  · obtain ⟨response, answers, text⟩ := answered_api api success
    rw [text]
    exact .api response api answers
  have other : t.http.method_ ≠ .post := by
    intro post
    rw [analysisRequest_post w api post] at success
    cases success
  by_cases hello : t.http.fileName_ = bytes "hello"
  · rw [answered_hello api other hello]
    exact .hello other hello
  by_cases icon : t.http.fileName_ = bytes "favicon.ico"
  · rw [answered_favicon api other hello icon]
    exact .favicon other icon
  -- Only a page of its own is left; a missing one is refused.
  cases found : w.fs t.wire.served (cStr t.http.fileName_) with
  | none =>
    rw [(answered_missing api other hello icon found).2] at success
    cases success
  | some sbuf =>
    by_cases head : t.http.method_ = .head
    · rw [answered_head api other hello icon found head]
      have alone := Served.file sbuf [] other api hello icon found (by rw [if_pos head])
      rwa [List.append_nil] at alone
    -- A GET also needs the content.
    by_cases readable : sbuf.opened = true ∧ sbuf.mapped.isSome = true
    · obtain ⟨src, mapped⟩ := Option.isSome_iff_exists.mp readable.2
      rw [answered_mapped api other hello icon found head readable.1 mapped]
      exact .file sbuf src.1 other api hello icon found
        (by rw [if_neg head]; exact ⟨readable.1, src, mapped, rfl⟩)
    · rw [(answered_unreadable api other hello icon found head readable).2] at success
      cases success

/-- No request succeeds with an empty answer. -/
theorem Served.ne_nil {w : World} {t : Conn} {response : Bytes} (served : Served w t response) :
    response ≠ [] := by
  have headed (head : Head) (body : Bytes) : head.text ++ body ≠ [] := by
    have start : bytes "HTTP/1.1 " ≠ [] := by decide
    simp [Head.text, statusLine, start]
  cases served with
  | api response _ answers => rw [apiHead_text (handle_unbroken answers)]; exact headed _ _
  | hello => rw [helloResponse_text]; exact headed _ _
  | favicon => rw [faviconHeader_text]; exact headed _ _
  | file => rw [fileHeader_text]; exact headed _ _

end LightAgent

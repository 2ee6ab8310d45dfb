import LightAgent.HttpData.ParseURI

/-!
# HttpData: answering a request

The header lookups, the API and the static routes, and the error page. A response is
appended to `outBuffer_` except where the code assigns or clears it; the error page
goes to the socket directly.
-/
namespace LightAgent

open Library

/-! ### Header lookups -/

/-- `tolower` in the C locale. -/
def tolower (ch : UInt8) : UInt8 := if 65 ≤ ch ∧ ch ≤ 90 then ch + 32 else ch

def toLowerCopy (value : Bytes) : Bytes := value.map tolower

def isspace (ch : UInt8) : Bool := ch == 32 || (9 ≤ ch && ch ≤ 13)

def isdigit (ch : UInt8) : Bool := 48 ≤ ch && ch ≤ 57

/-- The number a run of decimal digits denotes. -/
def digitsValue (digits : Bytes) : Nat :=
  digits.foldl (fun n ch => n * 10 + (ch.toNat - 48)) 0

/-- `std::stoi`: blanks, a sign, then digits up to the first other byte; `none` where it throws. -/
def stoi (value : Bytes) : Option Int :=
  let s := value.dropWhile isspace
  let negative := s.head? = some 45
  let s := if s.head? = some 45 ∨ s.head? = some 43 then s.drop 1 else s
  let digits := s.takeWhile isdigit
  let n : Int := if negative then -(digitsValue digits) else digitsValue digits
  if digits = [] then none
  else if -(2 ^ 31) ≤ n ∧ n < 2 ^ 31 then some n
  else none

/-- The first entry, in map order, whose name is `name` in lower case. -/
def HeaderMap.lookup (headers : HeaderMap) (name : Bytes) : Option Bytes :=
  (headers.entries.find? fun e => toLowerCopy e.1 = name).map (·.2)

def HttpData.getContentLength (h : HttpData) : Option Nat :=
  match HeaderMap.lookup h.headers_ (bytes "content-length") with
  | none => none
  | some value =>
    match stoi value with
    | none => none
    | some length => if length < 0 then none else some length.toNat

theorem HttpData.getContentLength_congr {h k : HttpData} (headers : k.headers_ = h.headers_) :
    k.getContentLength = h.getContentLength := by
  unfold getContentLength
  rw [headers]

def HttpData.isKeepAliveRequested (h : HttpData) : Bool :=
  match HeaderMap.lookup h.headers_ (bytes "connection") with
  | none => false
  | some value => toLowerCopy value = bytes "keep-alive"

theorem HttpData.isKeepAliveRequested_congr {h k : HttpData} (headers : k.headers_ = h.headers_) :
    k.isKeepAliveRequested = h.isKeepAliveRequested := by
  unfold isKeepAliveRequested
  rw [headers]

/-! ### Fixed data -/

def DEFAULT_EXPIRED_TIME : Nat := 2000
def DEFAULT_KEEP_ALIVE_TIME : Nat := 5 * 60 * 1000

def favicon : Bytes :=
  [137, 80, 78, 71, 13, 10, 26, 10, 0, 0, 0, 13, 73, 72, 68, 82, 0, 0, 0, 16, 0, 0, 0, 16, 8,
   6, 0, 0, 0, 31, 243, 255, 97, 0, 0, 0, 25, 116, 69, 88, 116, 83, 111, 102, 116, 119, 97,
   114, 101, 0, 65, 100, 111, 98, 101, 32, 73, 109, 97, 103, 101, 82, 101, 97, 100, 121, 113,
   201, 101, 60, 0, 0, 1, 205, 73, 68, 65, 84, 120, 218, 148, 147, 57, 72, 3, 65, 20, 134, 255,
   93, 98, 167, 4, 82, 196, 109, 34, 30, 160, 70, 36, 8, 22, 22, 118, 10, 54, 186, 74, 154,
   128, 8, 65, 180, 113, 133, 88, 137, 71, 176, 73, 169, 81, 36, 205, 166, 8, 164, 72, 99, 145,
   66, 11, 175, 86, 193, 70, 180, 21, 207, 34, 88, 152, 11, 84, 72, 138, 100, 147, 141, 251,
   70, 103, 201, 26, 20, 125, 240, 102, 118, 102, 223, 124, 239, 231, 103, 70, 168, 213, 106,
   72, 36, 18, 42, 0, 5, 191, 71, 212, 239, 247, 47, 54, 236, 18, 32, 30, 143, 215, 170, 213,
   234, 175, 73, 53, 70, 170, 84, 95, 159, 34, 65, 42, 149, 10, 131, 229, 114, 57, 100, 179,
   89, 150, 153, 76, 6, 233, 116, 154, 37, 133, 44, 203, 84, 167, 196, 98, 49, 181, 94, 0, 3,
   104, 154, 198, 22, 130, 32, 88, 82, 20, 69, 54, 83, 148, 203, 101, 120, 189, 94, 170, 85,
   84, 35, 76, 192, 224, 226, 193, 143, 0, 158, 188, 9, 65, 124, 62, 31, 131, 68, 34, 17, 213,
   84, 64, 63, 56, 128, 119, 229, 51, 7, 184, 92, 46, 72, 146, 4, 135, 195, 129, 64, 32, 64,
   103, 152, 233, 54, 26, 166, 103, 21, 4, 227, 215, 200, 189, 21, 225, 105, 183, 67, 171, 234,
   120, 47, 106, 88, 146, 187, 24, 32, 159, 207, 51, 195, 184, 233, 78, 167, 211, 108, 74, 0,
   105, 54, 124, 142, 225, 254, 86, 132, 231, 60, 159, 114, 43, 58, 66, 123, 55, 102, 119, 174,
   142, 14, 243, 189, 82, 169, 100, 2, 66, 175, 133, 50, 102, 70, 186, 12, 217, 159, 29, 154,
   108, 34, 230, 199, 58, 44, 128, 239, 193, 21, 144, 7, 147, 162, 40, 160, 83, 106, 177, 184,
   223, 41, 53, 67, 14, 63, 88, 252, 152, 218, 121, 106, 80, 64, 0, 135, 174, 27, 23, 66, 180,
   58, 63, 190, 121, 199, 10, 38, 182, 238, 217, 154, 96, 20, 147, 219, 143, 13, 10, 46, 233,
   35, 149, 41, 88, 0, 39, 235, 110, 86, 112, 188, 214, 203, 214, 71, 171, 61, 108, 125, 184,
   210, 221, 160, 96, 131, 186, 239, 95, 164, 234, 204, 2, 78, 174, 94, 112, 26, 236, 179, 64,
   57, 172, 254, 242, 145, 137, 103, 145, 133, 33, 168, 135, 183, 88, 126, 126, 133, 187, 205,
   78, 78, 98, 116, 64, 250, 147, 137, 236, 30, 236, 134, 2, 72, 38, 147, 208, 117, 29, 127, 9,
   50, 149, 191, 31, 219, 215, 99, 138, 26, 247, 92, 193, 255, 34, 74, 195, 135, 0, 3, 0, 75,
   187, 248, 214, 42, 118, 152, 73, 0, 0, 0, 0, 73, 69, 78, 68, 174, 66, 96, 130]

/-- The table `MimeType::init` fills. -/
def mime : List (String × String) :=
  [(".html", "text/html"), (".avi", "video/x-msvideo"), (".bmp", "image/bmp"),
    (".c", "text/plain"), (".doc", "application/msword"), (".gif", "image/gif"),
    (".gz", "application/x-gzip"), (".htm", "text/html"), (".ico", "image/x-icon"),
    (".jpg", "image/jpeg"), (".png", "image/png"), (".txt", "text/plain"),
    (".mp3", "audio/mp3"), ("default", "text/html")]

/-- `MimeType::getMime` -/
def getMime (suffix : Bytes) : Bytes :=
  match mime.find? fun e => bytes e.1 = suffix with
  | some e => bytes e.2
  | none => bytes "text/html"

/-! ### The error page -/

/-- `writen(fd, buff, n)` on the connection's socket. -/
def Conn.writeRaw (s : Conn) (buff : Bytes) : Conn :=
  let out := writenRaw buff s.wire.writes
  { s with wire := { s.wire with writes := out.rest, sent := s.wire.sent ++ out.accepted } }

def errorBody (err_num : Nat) (short_msg : Bytes) : Bytes :=
  bytes "<html><title>哎~出错了</title>" ++ bytes "<body bgcolor=\"ffffff\">" ++
    decimal err_num ++ short_msg ++ bytes "<hr><em> LinYa's Web Server</em>\n</body></html>"

def errorHeader (err_num : Nat) (short_msg : Bytes) : Bytes :=
  bytes "HTTP/1.1 " ++ decimal err_num ++ short_msg ++ bytes "\r\n" ++
    bytes "Content-Type: text/html\r\n" ++ bytes "Connection: Close\r\n" ++
    bytes "Content-Length: " ++ decimal (errorBody err_num short_msg).length ++ bytes "\r\n" ++
    bytes "Server: LinYa's Web Server\r\n" ++ bytes "\r\n"

/-- `HttpData::handleError`: two writes that are not resumed when the socket blocks. -/
def handleError (s : Conn) (err_num : Nat) (short_msg : Bytes) : Conn :=
  let short_msg := bytes " " ++ short_msg
  (s.writeRaw (errorHeader err_num short_msg)).writeRaw (errorBody err_num short_msg)

/-! ### The API routes -/

def Conn.setHttp (s : Conn) (h : HttpData) : Conn := { s with http := h }

def toGatewayMethod : HttpMethod → LightAgentGateway.Method
  | .get => .get
  | .post => .post
  | .head => .head

/-- The `Connection` header lines of a response that keeps the connection. -/
def keepAliveHeader : Bytes :=
  bytes "Connection: Keep-Alive\r\n" ++ bytes "Keep-Alive: timeout=" ++
    decimal DEFAULT_KEEP_ALIVE_TIME ++ bytes "\r\n"

/-- The header block `analysisApiRequest` builds around a gateway response. -/
def apiHeader (response : LightAgentGateway.Response) (keepAlive : Bool) : Bytes :=
  bytes "HTTP/1.1 " ++ decimal response.statusCode ++ bytes " " ++ response.reason ++
    bytes "\r\n" ++ bytes "Content-Type: " ++ response.contentType ++ bytes "\r\n" ++
    bytes "Content-Length: " ++ decimal response.body.length ++ bytes "\r\n" ++
    bytes "Server: LightAgent Gateway\r\n" ++
    (if keepAlive then keepAliveHeader else []) ++ bytes "\r\n"

/-- `HttpData::analysisApiRequest` after the body is delimited. -/
def answerApiRequest (view : LightAgentGateway.View) (s : Conn) (contentLength : Option Nat)
    (body : Bytes) : Conn × AnalysisState :=
  let h := s.http
  let gatewayRequest : LightAgentGateway.Request :=
    ⟨toGatewayMethod h.method_, bytes "/" ++ h.fileName_, body⟩
  let s := { s with wire := { s.wire with calls := s.wire.calls ++ [gatewayRequest] } }
  match LightAgentGateway.handle view gatewayRequest with
  | none => (s, .error)
  | some response =>
    let keepAlive := h.isKeepAliveRequested
    (s.setHttp { h with
      keepAlive_ := h.keepAlive_ || keepAlive
      outBuffer_ := h.outBuffer_ ++ apiHeader response keepAlive ++
        (if h.method_ ≠ .head then response.body else [])
      -- Only a POST takes its body out of the buffer.
      inBuffer_ := match contentLength with
        | some length => h.inBuffer_.drop length
        | none => h.inBuffer_ }, .success)

/-- `HttpData::analysisApiRequest` -/
def analysisApiRequest (view : LightAgentGateway.View) (s : Conn) : Conn × AnalysisState :=
  if s.http.method_ = .post then
    match s.http.getContentLength with
    | none => (s, .error)
    | some contentLength =>
      if toInt s.http.inBuffer_.length < contentLength then (s, .error)
      else answerApiRequest view s (some contentLength) (s.http.inBuffer_.take contentLength)
  else answerApiRequest view s none []

/-! ### The static routes -/

/-- The path a C string hands to `stat` and `open`. -/
def cStr (s : Bytes) : Bytes := s.takeWhile (· ≠ 0)

def helloResponse : Bytes :=
  bytes "HTTP/1.1 200 OK\r\nContent-type: text/plain\r\n\r\nHello World"

/-- The status line and connection lines every static response starts with. -/
def staticHeader (keepAlive : Bool) : Bytes :=
  bytes "HTTP/1.1 200 OK\r\n" ++ (if keepAlive then keepAliveHeader else [])

def faviconHeader (keepAlive : Bool) : Bytes :=
  staticHeader keepAlive ++ bytes "Content-Type: image/png\r\n" ++
    bytes "Content-Length: " ++ decimal favicon.length ++ bytes "\r\n" ++
    bytes "Server: LinYa's Web Server\r\n" ++ bytes "\r\n"

/-- `filetype`, from the first dot of the file name on. -/
def fileType (fileName : Bytes) : Bytes :=
  let dot_pos := intPos (find (bytes ".") fileName)
  if dot_pos < 0 then getMime (bytes "default") else getMime (fileName.drop dot_pos.toNat)

def fileHeader (keepAlive : Bool) (fileName : Bytes) (st_size : Nat) : Bytes :=
  staticHeader keepAlive ++ bytes "Content-Type: " ++ fileType fileName ++ bytes "\r\n" ++
    bytes "Content-Length: " ++ decimal st_size ++ bytes "\r\n" ++
    bytes "Server: LinYa's Web Server\r\n" ++ bytes "\r\n"

/-- The exits that clear the pending output and send a 404 page. -/
def notFound (s : Conn) : Conn × AnalysisState :=
  (handleError (s.setHttp { s.http with outBuffer_ := [] }) 404 (bytes "Not Found!"), .error)

/-- The GET and HEAD branch of `HttpData::analysisRequest`. -/
def analysisStaticRequest (fs : Bytes → Option FileStat) (s : Conn) : Conn × AnalysisState :=
  let keepAlive := s.http.isKeepAliveRequested
  let h := { s.http with keepAlive_ := s.http.keepAlive_ || keepAlive }
  if h.fileName_ = bytes "hello" then
    -- An assignment: a response still pending is lost.
    (s.setHttp { h with outBuffer_ := helloResponse }, .success)
  else if h.fileName_ = bytes "favicon.ico" then
    (s.setHttp { h with outBuffer_ := h.outBuffer_ ++ faviconHeader keepAlive ++ favicon }, .success)
  else
    match fs (cStr h.fileName_) with
    -- The two exits below clear what is pending; this one does not.
    | none => (handleError (s.setHttp h) 404 (bytes "Not Found!"), .error)
    | some sbuf =>
      let h := { h with
        outBuffer_ := h.outBuffer_ ++ fileHeader keepAlive h.fileName_ sbuf.st_size }
      if h.method_ = .head then (s.setHttp h, .success)
      else if !sbuf.opened then notFound (s.setHttp h)
      else match sbuf.mapped with
        | none => notFound (s.setHttp h)
        | some src => (s.setHttp { h with outBuffer_ := h.outBuffer_ ++ src }, .success)

/-- `HttpData::analysisRequest` on the n-th request, n being `wire.served`. -/
def analysisRequest (w : World) (s : Conn) : Conn × AnalysisState :=
  let n := s.wire.served
  let s := { s with wire := { s.wire with served := n + 1 } }
  if (bytes "api/").isPrefixOf s.http.fileName_ then analysisApiRequest (w.gateway n) s
  else match s.http.method_ with
    | .post => (s, .error)
    | .get | .head => analysisStaticRequest (w.fs n) s

/-- The gateway has an answer for every file name under `api/`. -/
theorem handle_api (view : LightAgentGateway.View) (method : LightAgentGateway.Method)
    {fileName : Bytes} (api : (bytes "api/").isPrefixOf fileName = true) (body : Bytes) :
    ∃ response, LightAgentGateway.handle view ⟨method, bytes "/" ++ fileName, body⟩ =
      some response := by
  have slash : bytes "/api/" = 47 :: bytes "api/" := by decide
  apply Option.isSome_iff_exists.mp
  rw [LightAgentGateway.handle_isSome]
  unfold LightAgentGateway.startsWith
  rw [slash]
  exact api

theorem analysisRequest_api (w : World) {s : Conn}
    (api : (bytes "api/").isPrefixOf s.http.fileName_ = true) :
    analysisRequest w s = analysisApiRequest (w.gateway s.wire.served)
      { s with wire := { s.wire with served := s.wire.served + 1 } } := if_pos api

/-- A POST that is not for the API is refused. -/
theorem analysisRequest_post (w : World) {s : Conn}
    (api : ¬(bytes "api/").isPrefixOf s.http.fileName_ = true) (post : s.http.method_ = .post) :
    analysisRequest w s = ({ s with wire := { s.wire with served := s.wire.served + 1 } }, .error) := by
  unfold analysisRequest
  dsimp only
  rw [if_neg api, post]

theorem analysisRequest_static (w : World) {s : Conn}
    (api : ¬(bytes "api/").isPrefixOf s.http.fileName_ = true) (other : s.http.method_ ≠ .post) :
    analysisRequest w s = analysisStaticRequest (w.fs s.wire.served)
      { s with wire := { s.wire with served := s.wire.served + 1 } } := by
  unfold analysisRequest
  dsimp only
  rw [if_neg api]
  cases method : s.http.method_ with
  | post => exact absurd method other
  | get => rfl
  | head => rfl

end LightAgent

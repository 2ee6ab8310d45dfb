import LightAgent.Library.Bytes

/-!
# LightAgentGateway: the API routes

`handle` and the three routes it serves. What a call reads outside its request (the
environment, the working directory, the clock and the two counters as they are
loaded) is the `View` it is given.
-/
namespace LightAgent.LightAgentGateway

open Library

inductive Method where
  | get | post | head | unsupported
  deriving DecidableEq, Repr

structure Request where
  method : Method
  path : Bytes
  body : Bytes
  deriving DecidableEq, Repr

structure Response where
  statusCode : Nat
  reason : Bytes
  contentType : Bytes
  body : Bytes
  deriving DecidableEq, Repr

/-- What one call of `handle` sees of the process it runs in. -/
structure View where
  /-- `getenv("LIGHTAGENT_PROVIDER")` -/
  provider : Option Bytes
  /-- `getenv("GEMINI_API_KEY")` -/
  geminiApiKey : Option Bytes
  /-- `filesystem::current_path().generic_string()`, which is taken to succeed -/
  currentPath : Bytes
  /-- whole seconds since `kStartedAt` -/
  uptime : Nat
  /-- `gApiRequests.load()` -/
  apiRequests : Nat
  /-- `gChatRequests.load()` -/
  chatRequests : Nat

def startsWith (value pre : Bytes) : Bool := pre.isPrefixOf value

/-- The escape of one byte; every other byte is copied. -/
def jsonEscapeByte (ch : UInt8) : Bytes :=
  if ch = 92 then bytes "\\\\"
  else if ch = 34 then bytes "\\\""
  else if ch = 10 then bytes "\\n"
  else if ch = 13 then bytes "\\r"
  else if ch = 9 then bytes "\\t"
  else [ch]

def jsonEscape (value : Bytes) : Bytes := value.flatMap jsonEscapeByte

/-- An environment variable that is set and not empty. -/
def getenvString (value : Option Bytes) : Option Bytes :=
  value.filter (· ≠ [])

def jsonResponse (statusCode : Nat) (reason body : Bytes) : Response :=
  ⟨statusCode, reason, bytes "application/json; charset=utf-8", body⟩

def methodNotAllowed (allow : Bytes) : Response :=
  jsonResponse 405 (bytes "Method Not Allowed")
    (bytes "\x7b" ++ bytes "\"error\":\"method_not_allowed\"," ++
      bytes "\"allow\":\"" ++ allow ++ bytes "\"" ++ bytes "\x7d")

def health (view : View) : Response :=
  jsonResponse 200 (bytes "OK")
    (bytes "\x7b" ++ bytes "\"status\":\"ok\"," ++
      bytes "\"service\":\"LightAgent Gateway\"," ++
      bytes "\"stage\":\"phase-1\"," ++
      bytes "\"provider\":\"" ++
        jsonEscape ((getenvString view.provider).getD (bytes "mock")) ++ bytes "\"," ++
      bytes "\"gemini_api_key_configured\":" ++
        (if (getenvString view.geminiApiKey).isSome then bytes "true" else bytes "false") ++
        bytes "," ++
      bytes "\"fallback_provider\":\"ollama\"," ++
      bytes "\"static_root\":\"" ++ jsonEscape view.currentPath ++ bytes "\"" ++ bytes "\x7d")

/-- The counters in the order of the map they are put in. -/
def metrics (view : View) : Response :=
  let counters : List (Bytes × Nat) :=
    [(bytes "api_requests_total", view.apiRequests),
      (bytes "chat_requests_total", view.chatRequests)]
  jsonResponse 200 (bytes "OK")
    (bytes "\x7b" ++ bytes "\"service\":\"LightAgent Gateway\"," ++
      bytes "\"uptime_seconds\":" ++ decimal view.uptime ++
      counters.flatMap (fun entry => bytes ",\"" ++ entry.1 ++ bytes "\":" ++ decimal entry.2) ++
      bytes "\x7d")

def chat (request : Request) : Response :=
  jsonResponse 200 (bytes "OK")
    (bytes "\x7b" ++ bytes "\"id\":\"mock-chat-1\"," ++
      bytes "\"object\":\"chat.completion\"," ++
      bytes "\"provider\":\"mock\"," ++
      bytes "\"model\":\"mock-lightagent-phase1\"," ++
      bytes "\"answer\":\"This is a mock answer from LightAgent Gateway. " ++
      bytes "Gemini and Ollama integration is not enabled in phase 1.\"," ++
      bytes "\"received_body\":\"" ++ jsonEscape request.body ++ bytes "\"" ++ bytes "\x7d")

/-- `LightAgentGateway::handle`. The increments of the counters are in the loads of `view`. -/
def handle (view : View) (request : Request) : Option Response :=
  if !startsWith request.path (bytes "/api/") then none
  else if request.path = bytes "/api/health" then
    if request.method ≠ .get ∧ request.method ≠ .head then
      some (methodNotAllowed (bytes "GET, HEAD"))
    else some (health view)
  else if request.path = bytes "/api/metrics" then
    if request.method ≠ .get ∧ request.method ≠ .head then
      some (methodNotAllowed (bytes "GET, HEAD"))
    else some (metrics view)
  else if request.path = bytes "/api/chat" then
    if request.method ≠ .post then some (methodNotAllowed (bytes "POST"))
    else some (chat request)
  else some (jsonResponse 404 (bytes "Not Found")
    (bytes "\x7b\"error\":\"api_route_not_found\"\x7d"))

/-- The gateway refuses exactly the paths outside `/api/`. -/
theorem handle_isSome (view : View) (request : Request) :
    (handle view request).isSome = startsWith request.path (bytes "/api/") := by
  unfold handle
  cases startsWith request.path (bytes "/api/") with
  | false => rfl
  | true =>
    simp only [Bool.not_true, Bool.false_eq_true, if_false]
    repeat' split
    all_goals rfl

end LightAgent.LightAgentGateway

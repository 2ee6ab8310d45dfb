import LightAgent.Library.Escaping
import LightAgent.LightAgentGateway.Counters

/-!
# The members of the answers

What a reader finds in the bytes of an answer that decodes the escapes of `jsonEscape` and copies
every other byte. It takes any bytes, so it reads what is no text too.
-/
namespace LightAgent.LightAgentGateway

open Library

/-! ### The escapes -/

/-- The byte behind the reverse solidus, for the bytes that are not copied. -/
def escapeLetter (ch : UInt8) : Option UInt8 :=
  if ch = 92 then some 92
  else if ch = 34 then some 34
  else if ch = 10 then some 110
  else if ch = 13 then some 114
  else if ch = 9 then some 116
  else none

/-- The byte that is meant by one behind the reverse solidus. -/
def escapeMeans (letter : UInt8) : Option UInt8 :=
  if letter = 92 then some 92
  else if letter = 34 then some 34
  else if letter = 110 then some 10
  else if letter = 114 then some 13
  else if letter = 116 then some 9
  else none

theorem jsonEscapeByte_copies {b : UInt8} (plain : b ∉ [92, 34, 10, 13, 9]) :
    jsonEscapeByte b = [b] := by
  simp only [List.mem_cons, List.not_mem_nil, or_false, not_or] at plain
  simp [jsonEscapeByte, plain]

theorem escapeLetter_copies {ch : UInt8} (plain : ch ∉ [92, 34, 10, 13, 9]) :
    escapeLetter ch = none := by
  simp only [List.mem_cons, List.not_mem_nil, or_false, not_or] at plain
  simp [escapeLetter, plain]

theorem escapeMeans_escapeLetter (ch letter : UInt8) (written : escapeLetter ch = some letter) :
    escapeMeans letter = some ch := by
  have back : ∀ ch ∈ [92, 34, 10, 13, 9], (escapeLetter ch).bind escapeMeans = some ch := by
    simp [escapeLetter, escapeMeans]
  by_cases listed : ch ∈ [92, 34, 10, 13, 9]
  · have means := back ch listed
    rwa [written] at means
  · rw [escapeLetter_copies listed] at written
    cases written

theorem json_apart : escapeLetter 92 ≠ none ∧ escapeLetter 34 ≠ none ∧ (92 : UInt8) ≠ 34 ∧
    (44 : UInt8) ≠ 125 := by
  decide

/-- The symbols of the answers. -/
def json : Punctuation UInt8 where
  mark := 92
  close := 34
  letter := escapeLetter
  symbol := escapeMeans
  symbol_letter := escapeMeans_escapeLetter
  mark_escaped := json_apart.1
  close_escaped := json_apart.2.1
  mark_ne_close := json_apart.2.2.1
  opening := 123
  colon := 58
  comma := 44
  ending := 125
  comma_ne_ending := json_apart.2.2.2

theorem jsonEscapeByte_eq (ch : UInt8) : jsonEscapeByte ch = json.escapeOne ch := by
  by_cases listed : ch ∈ [92, 34, 10, 13, 9]
  · simp only [List.mem_cons, List.not_mem_nil, or_false] at listed
    rcases listed with rfl | rfl | rfl | rfl | rfl
    all_goals decide
  · rw [jsonEscapeByte_copies listed]
    exact (Escaping.escapeOne_copied (escapeLetter_copies listed)).symm

theorem jsonEscape_eq (value : Bytes) : jsonEscape value = json.escape value :=
  List.flatMap_congr fun ch _ => jsonEscapeByte_eq ch

/-- Behind the opening quotation mark: the bytes up to the first quotation mark that is not
escaped, and what is left. -/
def readString (text : Bytes) : Option (Bytes × Bytes) := json.read text

theorem readString_jsonEscape (s t : Bytes) : readString (jsonEscape s ++ 34 :: t) = some (s, t) := by
  rw [jsonEscape_eq]
  exact Escaping.read_escape s t

/-- A reverse solidus before the end of the string. -/
example : readString (jsonEscape (bytes "a\\") ++ bytes "\",\"b\"") =
    some (bytes "a\\", bytes ",\"b\"") := by decide

/-! ### What the answers tell -/

/-- The members of an answer, in their order. -/
def answerMembers (answer : Response) : Option (List (Member UInt8)) := json.readObject answer.body

def textMember (name value : String) : Member UInt8 := (bytes name, .string (bytes value))

/-- A literal of the source that is a whole member, with the comma behind it. -/
theorem member_text {literal : Bytes} {member : Member UInt8}
    (written : literal = json.memberText member ++ [44]) (t : Bytes) :
    literal ++ t = json.memberText member ++ 44 :: t := by
  rw [written, List.append_assoc, List.singleton_append]

/-- A literal in front of what goes through `jsonEscape`. -/
theorem escaped_text {literal name : Bytes} (written : literal = json.quoted name ++ [58, 34])
    (value t : Bytes) : literal ++ (jsonEscape value ++ 34 :: t) =
      json.memberText (name, .string value) ++ t := by
  rw [written, jsonEscape_eq]
  simp [Punctuation.memberText, Punctuation.valueText, Escaping.quoted, json]

/-- A literal in front of a value that is no string. -/
theorem bare_text {literal name : Bytes} (written : literal = json.quoted name ++ [58])
    (value t : Bytes) : literal ++ (value ++ t) = json.memberText (name, .bare value) ++ t := by
  rw [written]
  simp [Punctuation.memberText, Punctuation.valueText, json]

def chatAnswer (received : Bytes) : List (Member UInt8) :=
  [textMember "id" "mock-chat-1",
    textMember "object" "chat.completion",
    textMember "provider" "mock",
    textMember "model" "mock-lightagent-phase1",
    textMember "answer" ("This is a mock answer from LightAgent Gateway. " ++
      "Gemini and Ollama integration is not enabled in phase 1."),
    (bytes "received_body", .string received)]

/-- The provider that `health` tells. -/
def providerName (view : View) : Bytes := (getenvString view.provider).getD (bytes "mock")

def healthAnswer (provider root : Bytes) (configured : Bool) : List (Member UInt8) :=
  [textMember "status" "ok",
    textMember "service" "LightAgent Gateway",
    textMember "stage" "phase-1",
    (bytes "provider", .string provider),
    (bytes "gemini_api_key_configured", .bare (if configured then bytes "true" else bytes "false")),
    textMember "fallback_provider" "ollama",
    (bytes "static_root", .string root)]

theorem chat_text (request : Request) :
    (chat request).body = json.objectText (chatAnswer request.body) := by
  have id (t : Bytes) : bytes "\"id\":\"mock-chat-1\"," ++ t =
      json.memberText (textMember "id" "mock-chat-1") ++ 44 :: t := member_text (by decide) t
  have object (t : Bytes) : bytes "\"object\":\"chat.completion\"," ++ t =
      json.memberText (textMember "object" "chat.completion") ++ 44 :: t := member_text (by decide) t
  have provider (t : Bytes) : bytes "\"provider\":\"mock\"," ++ t =
      json.memberText (textMember "provider" "mock") ++ 44 :: t := member_text (by decide) t
  have model (t : Bytes) : bytes "\"model\":\"mock-lightagent-phase1\"," ++ t =
      json.memberText (textMember "model" "mock-lightagent-phase1") ++ 44 :: t :=
    member_text (by decide) t
  have answer (t : Bytes) : bytes "\"answer\":\"This is a mock answer from LightAgent Gateway. " ++
      (bytes "Gemini and Ollama integration is not enabled in phase 1.\"," ++ t) =
      json.memberText (textMember "answer" ("This is a mock answer from LightAgent Gateway. " ++
        "Gemini and Ollama integration is not enabled in phase 1.")) ++ 44 :: t := by
    rw [← List.append_assoc]
    exact member_text (by decide) t
  have received (t : Bytes) : bytes "\"received_body\":\"" ++ (jsonEscape request.body ++ 34 :: t) =
      json.memberText (bytes "received_body", .string request.body) ++ t :=
    escaped_text (by decide) _ t
  have ends : bytes "\"" ++ bytes "\x7d" = [34, 125] := by decide
  have opens (t : Bytes) : bytes "\x7b" ++ t = 123 :: t := rfl
  simp only [chat, jsonResponse, List.append_assoc]
  simp only [id, object, provider, model, answer, ends, received, opens]
  -- The members with a comma between them, from the first to the last.
  simp only [Punctuation.objectText, chatAnswer, Punctuation.membersText, List.append_assoc,
    List.cons_append]
  rfl

theorem health_text (view : View) :
    (health view).body = json.objectText (healthAnswer (providerName view) view.currentPath
      (getenvString view.geminiApiKey).isSome) := by
  have status (t : Bytes) : bytes "\"status\":\"ok\"," ++ t =
      json.memberText (textMember "status" "ok") ++ 44 :: t := member_text (by decide) t
  have service (t : Bytes) : bytes "\"service\":\"LightAgent Gateway\"," ++ t =
      json.memberText (textMember "service" "LightAgent Gateway") ++ 44 :: t :=
    member_text (by decide) t
  have stage (t : Bytes) : bytes "\"stage\":\"phase-1\"," ++ t =
      json.memberText (textMember "stage" "phase-1") ++ 44 :: t := member_text (by decide) t
  have provider (t : Bytes) : bytes "\"provider\":\"" ++
      (jsonEscape ((getenvString view.provider).getD (bytes "mock")) ++ 34 :: t) =
        json.memberText (bytes "provider", .string (providerName view)) ++ t :=
    escaped_text (by decide) _ t
  have fallback (t : Bytes) : bytes "\"fallback_provider\":\"ollama\"," ++ t =
      json.memberText (textMember "fallback_provider" "ollama") ++ 44 :: t := member_text (by decide) t
  have root (t : Bytes) : bytes "\"static_root\":\"" ++ (jsonEscape view.currentPath ++ 34 :: t) =
      json.memberText (bytes "static_root", .string view.currentPath) ++ t :=
    escaped_text (by decide) _ t
  have ends : bytes "\"" ++ bytes "\x7d" = [34, 125] := by decide
  have next (t : Bytes) : bytes "\"," ++ t = 34 :: 44 :: t := rfl
  have comma (t : Bytes) : bytes "," ++ t = 44 :: t := rfl
  have opens (t : Bytes) : bytes "\x7b" ++ t = 123 :: t := rfl
  have configured (value t : Bytes) : bytes "\"gemini_api_key_configured\":" ++ (value ++ t) =
      json.memberText (bytes "gemini_api_key_configured", .bare value) ++ t :=
    bare_text (by decide) value t
  simp only [health, jsonResponse, List.append_assoc]
  simp only [status, service, stage, next, comma, ends, provider, configured, fallback, root, opens]
  simp only [Punctuation.objectText, healthAnswer, Punctuation.membersText, List.append_assoc,
    List.cons_append]
  rfl

def metricsAnswer (view : View) : List (Member UInt8) :=
  [textMember "service" "LightAgent Gateway",
    (bytes "uptime_seconds", .bare (decimal view.uptime)),
    (bytes "api_requests_total", .bare (decimal view.apiRequests)),
    (bytes "chat_requests_total", .bare (decimal view.chatRequests))]

theorem metrics_text (view : View) : (metrics view).body = json.objectText (metricsAnswer view) := by
  have front : bytes "\x7b\"service\":\"LightAgent Gateway\",\"uptime_seconds\":" =
      123 :: (json.memberText (textMember "service" "LightAgent Gateway") ++
        44 :: (json.quoted (bytes "uptime_seconds") ++ [58])) := by decide
  have uptime (value t : Bytes) : json.quoted (bytes "uptime_seconds") ++ [58] ++ (value ++ t) =
      json.memberText (bytes "uptime_seconds", .bare value) ++ t := bare_text rfl value t
  have api (value t : Bytes) : bytes "\"api_requests_total\":" ++ (value ++ t) =
      json.memberText (bytes "api_requests_total", .bare value) ++ t := bare_text (by decide) value t
  have chat (value t : Bytes) : bytes "\"chat_requests_total\":" ++ (value ++ t) =
      json.memberText (bytes "chat_requests_total", .bare value) ++ t := bare_text (by decide) value t
  rw [metrics_body, front]
  simp only [api, chat]
  rw [List.cons_append, List.append_assoc, List.cons_append, uptime]
  simp only [Punctuation.objectText, metricsAnswer, Punctuation.membersText, List.append_assoc,
    List.cons_append]
  rfl

/-! ### What a reader finds -/

theorem decimal_writable (n : Nat) : json.Writable (.bare (decimal n)) := by
  refine ⟨decimal_ne_nil n, fun b member => ?_⟩
  -- The digits lie between the quotation mark and the comma on one side and the brace.
  obtain ⟨low, high⟩ := decimal_digits member
  refine ⟨?_, ?_, ?_⟩
  all_goals
    rintro rfl
    revert low high
    decide

theorem string_writable (s : Bytes) : json.Writable (.string s) := trivial

theorem chat_members (request : Request) :
    answerMembers (chat request) = some (chatAnswer request.body) := by
  rw [answerMembers, chat_text]
  apply Punctuation.readObject_objectText (List.cons_ne_nil _ _)
  simp only [textMember, List.forall_mem_cons, string_writable, true_and]
  exact List.forall_mem_nil _

theorem health_members (view : View) : answerMembers (health view) =
    some (healthAnswer (providerName view) view.currentPath
      (getenvString view.geminiApiKey).isSome) := by
  rw [answerMembers, health_text]
  apply Punctuation.readObject_objectText (List.cons_ne_nil _ _)
  have configured (b : Bool) :
      json.Writable (.bare (if b = true then bytes "true" else bytes "false")) := by
    cases b
    all_goals decide
  simp only [textMember, List.forall_mem_cons, string_writable, configured, true_and]
  exact List.forall_mem_nil _

theorem metrics_members (view : View) :
    answerMembers (metrics view) = some (metricsAnswer view) := by
  rw [answerMembers, metrics_text]
  apply Punctuation.readObject_objectText (List.cons_ne_nil _ _)
  simp only [textMember, List.forall_mem_cons, string_writable, decimal_writable, true_and]
  exact List.forall_mem_nil _

/-- The answers have the same names in the same order. -/
def SameMembers (answer answer' : Response) : Prop :=
  ∃ members members', answerMembers answer = some members ∧
    answerMembers answer' = some members' ∧ members.map Prod.fst = members'.map Prod.fst

theorem SameMembers.of_closed {answer : Response} (reads : (answerMembers answer).isSome = true) :
    SameMembers answer answer := by
  obtain ⟨members, found⟩ := Option.isSome_iff_exists.mp reads
  exact ⟨members, members, found, found, rfl⟩

/-- The route alone decides which members an answer has. -/
theorem handle_sameMembers (method : Method) (path : Bytes) (view view' : View) (body body' : Bytes) :
    Option.Rel SameMembers (handle view ⟨method, path, body⟩) (handle view' ⟨method, path, body'⟩) := by
  unfold handle
  repeat' split
  · exact .none
  · exact .some (.of_closed (by decide))
  · exact .some ⟨_, _, health_members view, health_members view', rfl⟩
  · exact .some (.of_closed (by decide))
  · exact .some ⟨_, _, metrics_members view, metrics_members view', rfl⟩
  · exact .some (.of_closed (by decide))
  · exact .some ⟨_, _, chat_members _, chat_members _, rfl⟩
  · exact .some (.of_closed (by decide))

theorem answerMembers_congr {answer answer' : Response} (same : answer.body = answer'.body) :
    answerMembers answer = answerMembers answer' :=
  congrArg json.readObject same

theorem chat_body_iff (request request' : Request) :
    (chat request).body = (chat request').body ↔ request.body = request'.body := by
  constructor
  · intro same
    have members := answerMembers_congr same
    rw [chat_members, chat_members] at members
    simpa [chatAnswer] using members
  · intro same
    rw [chat_text, chat_text, same]

theorem health_body_iff (view view' : View) : (health view).body = (health view').body ↔
    providerName view = providerName view' ∧ view.currentPath = view'.currentPath ∧
      (getenvString view.geminiApiKey).isSome = (getenvString view'.geminiApiKey).isSome := by
  constructor
  · intro same
    have members := answerMembers_congr same
    rw [health_members, health_members] at members
    simp only [healthAnswer, Option.some.injEq, List.cons.injEq, Prod.mk.injEq,
      MemberValue.string.injEq, MemberValue.bare.injEq, true_and, and_true] at members
    obtain ⟨provider, configured, root⟩ := members
    refine ⟨provider, root, ?_⟩
    have told (b b' : Bool) (same : (if b = true then bytes "true" else bytes "false") =
        if b' = true then bytes "true" else bytes "false") : b = b' := by
      revert b b'
      decide
    exact told _ _ configured
  · rintro ⟨provider, root, configured⟩
    rw [health_text, health_text, provider, root, configured]

/-- An escaped string ends where it was closed. So neither the body of a request nor the
environment adds a member to an answer or ends one, and different strings give different answers. -/
theorem no_break_out :
    (∀ s t : Bytes, readString (jsonEscape s ++ 34 :: t) = some (s, t)) ∧
    (∀ request, answerMembers (chat request) = some (chatAnswer request.body)) ∧
    (∀ view, answerMembers (health view) = some (healthAnswer (providerName view)
      view.currentPath (getenvString view.geminiApiKey).isSome)) ∧
    (∀ (method : Method) (path : Bytes) (view view' : View) (body body' : Bytes),
      Option.Rel SameMembers (handle view ⟨method, path, body⟩)
        (handle view' ⟨method, path, body'⟩)) ∧
    (∀ request request' : Request, (chat request).body = (chat request').body ↔
      request.body = request'.body) ∧
    (∀ view view' : View, (health view).body = (health view').body ↔
      providerName view = providerName view' ∧ view.currentPath = view'.currentPath ∧
        (getenvString view.geminiApiKey).isSome = (getenvString view'.geminiApiKey).isSome) := by
  refine ⟨readString_jsonEscape, chat_members, health_members, ?_, chat_body_iff, health_body_iff⟩
  intro method path view view' body body'
  exact handle_sameMembers method path view view' body body'

end LightAgent.LightAgentGateway

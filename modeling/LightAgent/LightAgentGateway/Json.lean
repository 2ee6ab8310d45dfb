import LightAgent.Library.Json
import LightAgent.LightAgentGateway.Members

/-!
# The answers as JSON

`jsonEscape` writes an escape for five bytes and copies every other one, control characters too.
What it makes of a text is the inside of a JSON string that stands for the text if and only if no
control character beside tab, LF and CR stands in it.
-/
namespace LightAgent.LightAgentGateway

open Library Library.Json

/-! ### Escaping characters -/

/-- The characters that `jsonEscape` has an escape for. -/
def special : List Char := ['\\', '"', '\n', '\r', '\t']

/-- The escape of one character; every other character is copied. -/
def escapeChar (c : Char) : List Char :=
  if c = '\\' then ['\\', '\\']
  else if c = '"' then ['\\', '"']
  else if c = '\n' then ['\\', 'n']
  else if c = '\r' then ['\\', 'r']
  else if c = '\t' then ['\\', 't']
  else [c]

theorem flatMap_jsonEscapeByte_copies {value : Bytes} (plain : ∀ b ∈ value, b ∉ [92, 34, 10, 13, 9]) :
    value.flatMap jsonEscapeByte = value := by
  induction value with
  | nil => rfl
  | cons b value ih =>
    obtain ⟨first, rest⟩ := List.forall_mem_cons.mp plain
    rw [List.flatMap_cons, jsonEscapeByte_copies first, ih rest]
    rfl

theorem escapeChar_copies {c : Char} (plain : c ∉ special) : escapeChar c = [c] := by
  simp only [special, List.mem_cons, List.not_mem_nil, or_false, not_or] at plain
  simp [escapeChar, plain]

/-- The bytes of a character are escaped as it is. -/
theorem jsonEscape_char (c : Char) :
    (String.utf8EncodeChar c).flatMap jsonEscapeByte = utf8 (escapeChar c) := by
  -- The five characters one by one; for the others no byte is one that is escaped.
  by_cases listed : c ∈ special
  · simp only [special, List.mem_cons, List.not_mem_nil, or_false] at listed
    rcases listed with rfl | rfl | rfl | rfl | rfl
    all_goals decide
  · rw [escapeChar_copies listed, flatMap_jsonEscapeByte_copies]
    · simp
    intro b member escaped
    have ascii : ∀ b ∈ [(92 : UInt8), 34, 10, 13, 9], b.toNat < 0x80 ∧ Char.ofNat b.toNat ∈ special := by
      simp [special]
    obtain ⟨low, back⟩ := ascii b escaped
    have alone : b ∈ utf8 [c] := by simpa using member
    obtain ⟨d, only, same⟩ := exists_char_of_ascii low alone
    rw [List.mem_singleton.mp only] at same
    rw [← same, Char.ofNat_toNat] at back
    exact listed back

theorem jsonEscape_utf8 (cs : List Char) :
    jsonEscape (utf8 cs) = utf8 (cs.flatMap escapeChar) := by
  induction cs with
  | nil => rfl
  | cons c cs ih =>
    rw [utf8_cons, List.flatMap_cons, utf8_append, ← ih, ← jsonEscape_char]
    exact List.flatMap_append

/-- The escapes stand for what they are made of. -/
theorem chars_escapeChar {c : Char} (printable : Printable c) {cs : List Char} {units : List Nat}
    (chars : Chars cs units) : Chars (escapeChar c ++ cs) (utf16Char c ++ units) := by
  by_cases listed : c ∈ special
  · simp only [special, List.mem_cons, List.not_mem_nil, or_false] at listed
    rcases listed with rfl | rfl | rfl | rfl | rfl
    all_goals exact .escape (by decide) chars
  · rw [escapeChar_copies listed]
    simp only [special, List.mem_cons, List.not_mem_nil, or_false, not_or] at listed
    -- The three white characters are special, so a copied one is above them.
    rcases printable with high | white
    · exact .plain ⟨high, listed.2.1, listed.1⟩ chars
    · simp [listed] at white

theorem chars_escape {cs : List Char} (printable : ∀ c ∈ cs, Printable c) :
    Chars (cs.flatMap escapeChar) (utf16 cs) := by
  induction cs with
  | nil => exact .nil
  | cons c cs ih =>
    obtain ⟨first, rest⟩ := List.forall_mem_cons.mp printable
    exact chars_escapeChar first (ih rest)

/-! ### What cannot be told -/

/-- Each control character is one that `jsonEscape` has an escape for. -/
def Escapable (value : Bytes) : Prop := ∀ b ∈ value, b.toNat < 0x20 → b ∈ [9, 10, 13]

instance (value : Bytes) : Decidable (Escapable value) :=
  List.decidableBAll (fun b : UInt8 => b.toNat < 0x20 → b ∈ [9, 10, 13]) value

/-- A control character is copied, or it has an escape. -/
theorem escapable_of_jsonEscape {value : Bytes}
    (clean : ∀ b ∈ jsonEscape value, b.toNat < 0x20 → b ∈ [9, 10, 13]) : Escapable value := by
  intro b member low
  by_contra other
  -- Without an escape the byte would stand in the answer as it is.
  have copied : b ∈ jsonEscapeByte b := by
    rw [jsonEscapeByte_copies]
    · exact List.mem_singleton.mpr rfl
    intro escaped
    have listed : ∀ b ∈ [(92 : UInt8), 34, 10, 13, 9], b.toNat < 0x20 → b ∈ [9, 10, 13] := by simp
    exact other (listed b escaped low)
  exact other (clean b (List.mem_flatMap.mpr ⟨b, member, copied⟩) low)

theorem Escapable.printable {cs : List Char} (escapable : Escapable (utf8 cs)) :
    ∀ c ∈ cs, Printable c := by
  intro c member
  by_cases low : c.toNat < 0x20
  · right
    have ascii := utf8EncodeChar_ascii (Nat.lt_trans low (by decide : 0x20 < 0x80))
    have value : (UInt8.ofNat c.toNat).toNat = c.toNat :=
      UInt8.toNat_ofNat_of_lt (Nat.lt_trans low (by decide))
    have byte : UInt8.ofNat c.toNat ∈ utf8 cs :=
      List.mem_flatMap.mpr ⟨c, member, by rw [ascii]; exact List.mem_singleton.mpr rfl⟩
    have listed : ∀ b ∈ [(9 : UInt8), 10, 13], Char.ofNat b.toNat ∈ ['\t', '\n', '\r'] := by simp
    have back := listed _ (escapable _ byte (by rw [value]; exact low))
    rwa [value, Char.ofNat_toNat] at back
  · exact .inl (Nat.not_lt.mp low)

/-! ### The answers as objects -/

/-- The members of a `chat` answer, with what stands for the body of the request. -/
def chatTexts (received : List Char) : List (List Char × List Char) :=
  [("id".toList, quoted "mock-chat-1".toList),
    ("object".toList, quoted "chat.completion".toList),
    ("provider".toList, quoted "mock".toList),
    ("model".toList, quoted "mock-lightagent-phase1".toList),
    ("answer".toList, quoted ("This is a mock answer from LightAgent Gateway. ".toList ++
      "Gemini and Ollama integration is not enabled in phase 1.".toList)),
    ("received_body".toList, quoted received)]

/-- The members of a `health` answer. -/
def healthTexts (provider root : List Char) (configured : Bool) : List (List Char × List Char) :=
  [("status".toList, quoted "ok".toList),
    ("service".toList, quoted "LightAgent Gateway".toList),
    ("stage".toList, quoted "phase-1".toList),
    ("provider".toList, quoted provider),
    ("gemini_api_key_configured".toList, if configured then "true".toList else "false".toList),
    ("fallback_provider".toList, quoted "ollama".toList),
    ("static_root".toList, quoted root)]

/-- A byte that is neither a control character nor one that a string escapes. -/
def plainByte (b : UInt8) : Bool := decide (0x20 ≤ b.toNat) && b != 34 && b != 92

/-- The bytes of a string tell that its characters stand for themselves. -/
theorem unescaped_of_bytes {text : String} (plain : (bytes text).all plainByte = true) :
    text.toList.all (Unescaped ·) = true := by
  rw [bytes_eq_utf8, List.all_eq_true] at plain
  rw [List.all_eq_true]
  intro c member
  rw [decide_eq_true_eq]
  by_cases ascii : c.toNat < 0x80
  · have value : (UInt8.ofNat c.toNat).toNat = c.toNat :=
      UInt8.toNat_ofNat_of_lt (Nat.lt_trans ascii (by decide))
    have byte : UInt8.ofNat c.toNat ∈ utf8 text.toList :=
      List.mem_flatMap.mpr ⟨c, member, by simp [utf8EncodeChar_ascii ascii]⟩
    have here := plain _ byte
    simp only [plainByte, value, Bool.and_eq_true, decide_eq_true_eq, bne_iff_ne] at here
    obtain ⟨⟨high, quote⟩, solidus⟩ := here
    exact ⟨high, fun same => quote (by rw [same]; rfl), fun same => solidus (by rw [same]; rfl)⟩
  -- Both characters that a string escapes are ASCII.
  · have high := Nat.not_lt.mp ascii
    refine ⟨Nat.le_trans (by decide) high, ?_, ?_⟩
    all_goals
      rintro rfl
      exact absurd high (by decide)

/-- The bytes of a member and their characters. -/
def MemberBytes (text : List Char × List Char) (member : Member UInt8) : Prop :=
  json.memberText member = utf8 (quoted text.1 ++ ':' :: text.2)

theorem membersText_utf8 {texts : List (List Char × List Char)} {members : List (Member UInt8)}
    (written : List.Forall₂ MemberBytes texts members) :
    json.membersText members = utf8 (membersText texts) := by
  induction written with
  | nil => rfl
  | @cons text member texts members first written ih =>
    obtain ⟨name, value⟩ := text
    rw [MemberBytes] at first
    -- The last member has no comma behind it.
    cases written with
    | nil => exact first
    | cons second written =>
      have comma : json.comma :: json.membersText (_ :: _) = utf8 (',' :: membersText (_ :: _)) :=
        congrArg (44 :: ·) ih
      rw [Punctuation.membersText_cons, first, comma, ← utf8_append]
      simp [membersText]

/-- The bytes of an object and its characters. -/
theorem objectText_utf8 {texts : List (List Char × List Char)} {members : List (Member UInt8)}
    (written : List.Forall₂ MemberBytes texts members) :
    json.objectText members = utf8 ('{' :: (membersText texts ++ ['}'])) := by
  rw [Punctuation.objectText, membersText_utf8 written, utf8_cons, utf8_append]
  rfl

/-- Nothing in such a text has an escape. -/
theorem flatMap_escapeChar_plain {text : String} (plain : (bytes text).all plainByte = true) :
    text.toList.flatMap escapeChar = text.toList := by
  have self := List.all_eq_true.mp (unescaped_of_bytes plain)
  have copied : ∀ c ∈ text.toList, escapeChar c = [c] := by
    intro c member
    obtain ⟨high, quote, solidus⟩ := of_decide_eq_true (self c member)
    apply escapeChar_copies
    simp only [special, List.mem_cons, List.not_mem_nil, or_false]
    rintro (rfl | rfl | rfl | rfl | rfl)
    · exact solidus rfl
    · exact quote rfl
    all_goals exact absurd high (by decide)
  rw [List.flatMap_congr copied, List.flatMap_singleton']

theorem quoted_utf8 (cs : List Char) :
    json.quoted (utf8 cs) = utf8 (quoted (cs.flatMap escapeChar)) := by
  rw [Escaping.quoted, ← jsonEscape_eq, jsonEscape_utf8, quoted, utf8_cons, utf8_append]
  rfl

theorem quoted_plain {text : String} (plain : (bytes text).all plainByte = true) :
    json.quoted (bytes text) = utf8 (quoted text.toList) := by
  rw [bytes_eq_utf8, quoted_utf8, flatMap_escapeChar_plain plain]

theorem memberBytes_of {name : String} {value : MemberValue UInt8} {text : List Char}
    (plain : (bytes name).all plainByte = true) (written : json.valueText value = utf8 text) :
    MemberBytes (name.toList, text) (bytes name, value) := by
  rw [MemberBytes, Punctuation.memberText, quoted_plain plain, written, utf8_append, utf8_cons]
  rfl

theorem memberBytes_plain {name text : String} (plain : (bytes name).all plainByte = true)
    (plain' : (bytes text).all plainByte = true) :
    MemberBytes (name.toList, quoted text.toList) (textMember name text) :=
  memberBytes_of plain (quoted_plain plain')

theorem chat_body {request : Request} {cs : List Char} (text : request.body = utf8 cs) :
    (chat request).body =
      utf8 ('{' :: (membersText (chatTexts (cs.flatMap escapeChar)) ++ ['}'])) := by
  rw [chat_text, text]
  apply objectText_utf8
  refine .cons ?_ (.cons ?_ (.cons ?_ (.cons ?_ (.cons ?_ (.cons ?_ .nil)))))
  -- The answer is written in two pieces.
  case refine_5 =>
    rw [← String.toList_append]
    exact memberBytes_plain (by decide) (by decide)
  case refine_6 => exact memberBytes_of (by decide) (quoted_utf8 cs)
  all_goals exact memberBytes_plain (by decide) (by decide)

theorem health_body {view : View} {provider root : List Char}
    (provider_ : providerName view = utf8 provider) (root_ : view.currentPath = utf8 root) :
    (health view).body =
      utf8 ('{' :: (membersText (healthTexts (provider.flatMap escapeChar)
        (root.flatMap escapeChar) (getenvString view.geminiApiKey).isSome) ++ ['}'])) := by
  rw [health_text, provider_, root_]
  apply objectText_utf8
  refine .cons ?_ (.cons ?_ (.cons ?_ (.cons ?_ (.cons ?_ (.cons ?_ (.cons ?_ .nil))))))
  case refine_4 => exact memberBytes_of (by decide) (quoted_utf8 provider)
  -- The one member that is no string.
  case refine_5 =>
    apply memberBytes_of (by decide)
    cases (getenvString view.geminiApiKey).isSome with
    | false => exact bytes_eq_utf8 "false"
    | true => exact bytes_eq_utf8 "true"
  case refine_7 => exact memberBytes_of (by decide) (quoted_utf8 root)
  all_goals exact memberBytes_plain (by decide) (by decide)

/-! ### Answers that can be read -/

/-- A JSON object without a name twice, each of these members a string that stands for its text. -/
def Tells (body : Bytes) (told : List (String × Bytes)) : Prop :=
  ∃ members, IsDocument body (.object members) ∧ (members.map Prod.fst).Nodup ∧
    ∀ entry ∈ told, ∃ cs, entry.2 = utf8 cs ∧
      (utf16 entry.1.toList, .string (utf16 cs)) ∈ members

theorem Tells.no_control {body : Bytes} {told : List (String × Bytes)} (tells : Tells body told) :
    ∀ b ∈ body, b.toNat < 0x20 → b ∈ [9, 10, 13] := by
  obtain ⟨members, document, _⟩ := tells
  exact document.no_control

/-- What `chat` answers. -/
def chatMembers (received : List Char) : List (List Nat × Value) :=
  [(utf16 "id".toList, .string (utf16 "mock-chat-1".toList)),
    (utf16 "object".toList, .string (utf16 "chat.completion".toList)),
    (utf16 "provider".toList, .string (utf16 "mock".toList)),
    (utf16 "model".toList, .string (utf16 "mock-lightagent-phase1".toList)),
    (utf16 "answer".toList, .string (utf16 ("This is a mock answer from LightAgent Gateway. ".toList ++
      "Gemini and Ollama integration is not enabled in phase 1.".toList))),
    (utf16 "received_body".toList, .string (utf16 received))]

/-- What `health` answers. -/
def healthMembers (provider root : List Char) (configured : Bool) : List (List Nat × Value) :=
  [(utf16 "status".toList, .string (utf16 "ok".toList)),
    (utf16 "service".toList, .string (utf16 "LightAgent Gateway".toList)),
    (utf16 "stage".toList, .string (utf16 "phase-1".toList)),
    (utf16 "provider".toList, .string (utf16 provider)),
    (utf16 "gemini_api_key_configured".toList, .bool configured),
    (utf16 "fallback_provider".toList, .string (utf16 "ollama".toList)),
    (utf16 "static_root".toList, .string (utf16 root))]

/-- A member that is written as it is. -/
theorem memberText_plain {name text : String} (plain : (bytes name).all plainByte = true)
    (plain' : (bytes text).all plainByte = true) :
    MemberText (name.toList, quoted text.toList)
      (utf16 name.toList, .string (utf16 text.toList)) :=
  ⟨chars_of_unescaped (unescaped_of_bytes plain),
    .string (chars_of_unescaped (unescaped_of_bytes plain'))⟩

/-- A member whose text goes through `jsonEscape`. -/
theorem memberText_escape {name : String} {cs : List Char}
    (plain : (bytes name).all plainByte = true) (escapable : Escapable (utf8 cs)) :
    MemberText (name.toList, quoted (cs.flatMap escapeChar))
      (utf16 name.toList, .string (utf16 cs)) :=
  ⟨chars_of_unescaped (unescaped_of_bytes plain), .string (chars_escape escapable.printable)⟩

theorem chat_document {request : Request} {cs : List Char} (text : request.body = utf8 cs)
    (escapable : Escapable (utf8 cs)) :
    IsDocument (chat request).body (.object (chatMembers cs)) := by
  rw [chat_body text]
  apply isDocument_object (List.cons_ne_nil _ _)
  refine .cons ?_ (.cons ?_ (.cons ?_ (.cons ?_ (.cons ?_ (.cons ?_ .nil)))))
  -- The answer is written in two pieces.
  case refine_5 =>
    refine ⟨chars_of_unescaped (unescaped_of_bytes (by decide)), .string (chars_of_unescaped ?_)⟩
    rw [List.all_append, unescaped_of_bytes (by decide), unescaped_of_bytes (by decide)]
    rfl
  case refine_6 => exact memberText_escape (by decide) escapable
  all_goals exact memberText_plain (by decide) (by decide)

theorem health_document {view : View} {provider root : List Char}
    (provider_ : providerName view = utf8 provider) (root_ : view.currentPath = utf8 root)
    (escapable : Escapable (utf8 provider)) (escapable' : Escapable (utf8 root)) :
    IsDocument (health view).body (.object
      (healthMembers provider root (getenvString view.geminiApiKey).isSome)) := by
  rw [health_body provider_ root_]
  apply isDocument_object (List.cons_ne_nil _ _)
  refine .cons ?_ (.cons ?_ (.cons ?_ (.cons ?_ (.cons ?_ (.cons ?_ (.cons ?_ .nil))))))
  case refine_4 => exact memberText_escape (by decide) escapable
  -- The one member that is no string.
  case refine_5 =>
    have plain : (bytes "gemini_api_key_configured").all plainByte = true := by decide
    refine ⟨chars_of_unescaped (unescaped_of_bytes plain), ?_⟩
    cases (getenvString view.geminiApiKey).isSome with
    | false => exact .false
    | true => exact .true
  case refine_7 => exact memberText_escape (by decide) escapable'
  all_goals exact memberText_plain (by decide) (by decide)

/-! ### When they can be read -/

/-- `chat` answers with JSON that tells the body. -/
def ChatTells (request : Request) : Prop :=
  Tells (chat request).body [("received_body", request.body)]

/-- `health` answers with JSON that tells the provider and the working directory. -/
def HealthTells (view : View) : Prop :=
  Tells (health view).body [("provider", providerName view), ("static_root", view.currentPath)]

theorem chat_tells_iff {request : Request} (text : IsUtf8 request.body) :
    ChatTells request ↔ Escapable request.body := by
  constructor
  · intro tells
    apply escapable_of_jsonEscape
    intro b member
    apply tells.no_control
    simp [chat, jsonResponse, member]
  · intro escapable
    obtain ⟨cs, text⟩ := text
    rw [text] at escapable
    refine ⟨chatMembers cs, chat_document text escapable, ?_, ?_⟩
    · simp only [chatMembers, List.map_cons, List.map_nil]
      decide
    · intro entry member
      rw [List.mem_singleton.mp member]
      refine ⟨cs, text, ?_⟩
      simp only [chatMembers, List.mem_cons, true_or, or_true]

theorem health_tells_iff {view : View} (provider : IsUtf8 (providerName view))
    (root : IsUtf8 view.currentPath) :
    HealthTells view ↔ Escapable (providerName view) ∧ Escapable view.currentPath := by
  constructor
  · intro tells
    constructor
    all_goals
      apply escapable_of_jsonEscape
      intro b member
      apply tells.no_control
    · rw [providerName] at member
      simp [health, jsonResponse, member]
    · simp [health, jsonResponse, member]
  · rintro ⟨escapable, escapable'⟩
    obtain ⟨provider, text⟩ := provider
    obtain ⟨root, text'⟩ := root
    rw [text] at escapable
    rw [text'] at escapable'
    refine ⟨_, health_document text text' escapable escapable', ?_, ?_⟩
    · simp only [healthMembers, List.map_cons, List.map_nil]
      decide
    · intro entry member
      simp only [List.mem_cons, List.not_mem_nil, or_false] at member
      rcases member with rfl | rfl
      · refine ⟨provider, text, ?_⟩
        simp only [healthMembers, List.mem_cons, true_or, or_true]
      · refine ⟨root, text', ?_⟩
        simp only [healthMembers, List.mem_cons, true_or, or_true]

theorem providerName_utf8 {view : View}
    (text : ∀ provider, view.provider = some provider → IsUtf8 provider) :
    IsUtf8 (providerName view) := by
  have mock : IsUtf8 (bytes "mock") := ⟨_, bytes_eq_utf8 "mock"⟩
  unfold providerName getenvString
  cases set : view.provider with
  | none => exact mock
  | some provider =>
    -- A value that is set and empty counts as one that is not set.
    rw [Option.filter_some]
    split
    · exact text provider set
    · exact mock

/-- The answers are JSON that tells what it is made of exactly where `jsonEscape` has an escape for
every control character in it. -/
theorem json_answers_iff (request : Request) (view : View) :
    (IsUtf8 request.body → (ChatTells request ↔ Escapable request.body)) ∧
    ((∀ provider, view.provider = some provider → IsUtf8 provider) → IsUtf8 view.currentPath →
      (HealthTells view ↔ Escapable (providerName view) ∧ Escapable view.currentPath)) := by
  constructor
  · exact chat_tells_iff
  · intro provider root
    exact health_tells_iff (providerName_utf8 provider) root

/-- A body with quotation marks, a line end and a character beyond ASCII. -/
theorem json_answers_iff_quotes :
    ChatTells ⟨.post, bytes "/api/chat", bytes "\"caf\u00e9\"\r\n"⟩ ∧
      HealthTells ⟨some (bytes "gemini"), none, bytes "/srv/www", 0, 0, 0⟩ := by
  obtain ⟨chat, health⟩ := json_answers_iff
    ⟨.post, bytes "/api/chat", bytes "\"caf\u00e9\"\r\n"⟩
    ⟨some (bytes "gemini"), none, bytes "/srv/www", 0, 0, 0⟩
  constructor
  · exact (chat ⟨_, bytes_eq_utf8 _⟩).mpr (by decide)
  · refine (health ?_ ⟨_, bytes_eq_utf8 _⟩).mpr (by decide)
    intro provider set
    cases set
    exact ⟨_, bytes_eq_utf8 _⟩

/-- The control character U+0001 is copied into the string. -/
theorem control_is_copied :
    ¬((∀ request : Request, IsUtf8 request.body → ChatTells request) ∧
      (∀ view : View, (∀ provider, view.provider = some provider → IsUtf8 provider) →
        IsUtf8 view.currentPath → HealthTells view)) := by
  rintro ⟨chats, _⟩
  have text : IsUtf8 [1] := ⟨['\x01'], by decide⟩
  have escapable := (chat_tells_iff text).mp (chats ⟨.post, bytes "/api/chat", [1]⟩ text)
  exact absurd escapable (by decide)

end LightAgent.LightAgentGateway

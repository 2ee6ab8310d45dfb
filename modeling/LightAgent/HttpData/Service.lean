import LightAgent.HttpData.ClientRequests
import LightAgent.HttpData.HalfClose

/-!
# The service behind the bytes

What a connection is for: one request after another is answered, until one is refused. It knows
of no buffers, states and header scans. What the handlers do with the bytes of the requests is
this, however the bytes are cut.
-/
namespace LightAgent

open Library

namespace ClientRequest

variable {w : World} {q : ClientRequest} {s t : Conn}

/-- The request for an API path that the gateway is to answer. -/
def gatewayRequest (q : ClientRequest) : LightAgentGateway.Request :=
  ⟨toGatewayMethod q.method, bytes "/" ++ q.path, q.body⟩

def IsApi (q : ClientRequest) : Prop := (bytes "api/").isPrefixOf q.path = true

instance (q : ClientRequest) : Decidable q.IsApi := inferInstanceAs (Decidable (_ = _))

/-- The content of a file that can be read. -/
def content (sbuf : FileStat) : Option Bytes :=
  if sbuf.opened then sbuf.mapped.map Subtype.val else none

/-- The answer to the request that is the n-th of its connection, if it is answered. -/
def reply (w : World) (n : Nat) (q : ClientRequest) : Option Bytes :=
  if q.IsApi then
    (LightAgentGateway.handle (w.gateway n) q.gatewayRequest).map fun response =>
      apiHeader response q.keepAlive ++ if q.method = .head then [] else response.body
  else if q.method = .post then none
  else if q.path = bytes "hello" then some helloResponse
  else if q.path = bytes "favicon.ico" then some (faviconHeader q.keepAlive ++ favicon)
  else (w.fs n (cStr q.path)).bind fun sbuf =>
    if q.method = .head then some (fileHeader q.keepAlive q.path sbuf.st_size)
    else (content sbuf).map (fileHeader q.keepAlive q.path sbuf.st_size ++ ·)

/-- What a request that is refused gets. -/
def refusal (q : ClientRequest) : Bytes :=
  if q.method = .post then [] else errorPage 404 (bytes "Not Found!")

def calls (q : ClientRequest) : List LightAgentGateway.Request :=
  if q.IsApi then [q.gatewayRequest] else []

/-! ### The analysis -/

namespace Understood

theorem apiBody (understood : q.Understood s t) (small : q.text.length < 2 ^ 31) :
    t.http.apiBody = q.body := by
  have length := q.length_text
  unfold HttpData.apiBody
  rw [understood.method_, understood.inBuffer_]
  by_cases post : q.method = .post
  · rw [if_pos post, getContentLength_headers understood.headers_ post (by omega)]
    exact List.take_length
  · rw [if_neg post, q.bodiless post]

/-- The analysis answers as the service does, or refuses where that does. -/
theorem reply (understood : q.Understood s t) (small : q.text.length < 2 ^ 31) :
    if (analysisRequest w t).2 = .success then
      q.reply w s.wire.served = some (answered w t)
    else q.reply w s.wire.served = none := by
  have served : t.wire.served = s.wire.served := by rw [understood.wire]
  have keepAlive := isKeepAliveRequested_headers understood.headers_
  have method := understood.method_
  have file := understood.fileName_
  unfold ClientRequest.reply
  by_cases api : q.IsApi
  · have api' : (bytes "api/").isPrefixOf t.http.fileName_ = true := file ▸ api
    have success := analysisRequest_api_success (w := w) api' understood.ready.body
    obtain ⟨response, answers, text⟩ := answered_api api' success
    rw [method, file, understood.apiBody small, served] at answers
    rw [if_pos success, if_pos api, text, keepAlive, method]
    unfold gatewayRequest
    rw [answers, Option.map_some]
    by_cases head : q.method = .head
    · rw [if_pos head, if_neg (not_not.mpr head)]
    · rw [if_neg head, if_pos head]
  have api' : ¬(bytes "api/").isPrefixOf t.http.fileName_ = true := file ▸ api
  rw [if_neg api]
  by_cases post : q.method = .post
  · rw [if_pos post, analysisRequest_post w api' (method.trans post)]
    rfl
  have other : t.http.method_ ≠ .post := method ▸ post
  rw [if_neg post]
  -- Where the request succeeds, the route that answers it is that of the service.
  by_cases hello : q.path = bytes "hello"
  · have success : (analysisRequest w t).2 = .success := by
      rw [analysisRequest_static w api' other]
      unfold analysisStaticRequest
      dsimp only
      rw [if_pos (file.trans hello)]
    rw [if_pos success, if_pos hello, answered_hello api' other (file.trans hello)]
  have hello' : t.http.fileName_ ≠ bytes "hello" := file ▸ hello
  rw [if_neg hello]
  by_cases icon : q.path = bytes "favicon.ico"
  · have success : (analysisRequest w t).2 = .success := by
      rw [analysisRequest_static w api' other]
      unfold analysisStaticRequest
      dsimp only
      rw [if_neg hello', if_pos (file.trans icon)]
    rw [if_pos success, if_pos icon, answered_favicon api' other hello' (file.trans icon), keepAlive]
  have icon' : t.http.fileName_ ≠ bytes "favicon.ico" := file ▸ icon
  rw [if_neg icon]
  cases found : w.fs s.wire.served (cStr q.path) with
  | none =>
    have missing := answered_missing api' other hello' icon' (served ▸ file ▸ found)
    rw [missing.2]
    rfl
  | some sbuf =>
    have found' : w.fs t.wire.served (cStr t.http.fileName_) = some sbuf := served ▸ file ▸ found
    rw [Option.bind_some]
    by_cases head : q.method = .head
    · have head' : t.http.method_ = .head := method.trans head
      have success : (analysisRequest w t).2 = .success := by
        rw [analysisRequest_static w api' other]
        unfold analysisStaticRequest
        dsimp only
        rw [if_neg hello', if_neg icon', found']
        exact congrArg Prod.snd (if_pos head')
      rw [if_pos success, if_pos head, answered_head api' other hello' icon' found' head', keepAlive,
        file]
    have get : t.http.method_ ≠ .head := method ▸ head
    rw [if_neg head]
    by_cases readable : sbuf.opened = true ∧ sbuf.mapped.isSome = true
    · obtain ⟨src, mapped⟩ := Option.isSome_iff_exists.mp readable.2
      have success : (analysisRequest w t).2 = .success := by
        rw [analysisRequest_static w api' other]
        unfold analysisStaticRequest
        dsimp only
        rw [if_neg hello', if_neg icon', found']
        dsimp only
        rw [if_neg get, if_neg (by simp [readable.1]), mapped]
      rw [if_pos success, answered_mapped api' other hello' icon' found' get readable.1 mapped,
        keepAlive, file, content, if_pos readable.1, mapped]
      rfl
    · have unreadable := answered_unreadable api' other hello' icon' found' get readable
      rw [unreadable.2]
      have nothing : content sbuf = none := by
        unfold content
        split
        next opened =>
          cases mapped : sbuf.mapped with
          | none => rfl
          | some src => exact absurd ⟨opened, by rw [mapped]; rfl⟩ readable
        next => rfl
      rw [nothing]
      rfl

/-- The gateway is called for an API path only, and nothing is left of a request that is
answered. -/
theorem effect (understood : q.Understood s t) (small : q.text.length < 2 ^ 31) :
    (analysisRequest w t).1.wire.calls = s.wire.calls ++ q.calls ∧
      (analysisRequest w t).1.wire.served = s.wire.served + 1 ∧
      ((analysisRequest w t).2 = .success → (analysisRequest w t).1.http.inBuffer_ = []) := by
  have length := q.length_text
  obtain ⟨method, file, headers, buffer, ready, wire⟩ := understood
  unfold calls
  rw [← wire]
  by_cases api : q.IsApi
  · have api' : (bytes "api/").isPrefixOf t.http.fileName_ = true := file ▸ api
    rw [if_pos api, analysisRequest_api w api']
    unfold analysisApiRequest
    dsimp only
    -- Whatever the body, the gateway is asked once and has an answer.
    have asks (contentLength : Option Nat) (body : Bytes) (same : body = q.body)
        (left : contentLength.elim t.http.inBuffer_ (t.http.inBuffer_.drop ·) = []) :
        let answer := (answerApiRequest (w.gateway t.wire.served)
          { t with wire := { t.wire with served := t.wire.served + 1 } } contentLength body)
        answer.1.wire.calls = t.wire.calls ++ [q.gatewayRequest] ∧
          answer.1.wire.served = t.wire.served + 1 ∧
          (answer.2 = .success → answer.1.http.inBuffer_ = []) := by
      obtain ⟨response, answers⟩ := handle_api (w.gateway t.wire.served)
        (toGatewayMethod t.http.method_) api' body
      unfold answerApiRequest gatewayRequest
      dsimp only
      rw [answers, method, file, same]
      cases contentLength with
      | none => exact ⟨rfl, rfl, fun _ => left⟩
      | some length => exact ⟨rfl, rfl, fun _ => left⟩
    by_cases post : q.method = .post
    · have declared := getContentLength_headers (h := t.http) headers post (by omega)
      rw [if_pos (method.trans post), declared]
      dsimp only
      have enough : ¬toInt t.http.inBuffer_.length < (q.body.length : Int) := by
        rw [buffer, toInt_of_lt (by omega)]
        exact Int.lt_irrefl _
      rw [if_neg enough]
      refine asks (some q.body.length) _ ?_ ?_
      · rw [buffer, List.take_length]
      · rw [Option.elim_some, buffer, List.drop_length]
    · rw [if_neg (fun here => post (method.symm.trans here))]
      refine asks none [] (q.bodiless post).symm ?_
      rw [Option.elim_none, buffer, q.bodiless post]
  have api' : ¬(bytes "api/").isPrefixOf t.http.fileName_ = true := file ▸ api
  rw [if_neg api, List.append_nil]
  by_cases post : q.method = .post
  · rw [analysisRequest_post w api' (method.trans post)]
    refine ⟨rfl, rfl, fun success => ?_⟩
    cases success
  · have empty : t.http.inBuffer_ = [] := buffer.trans (q.bodiless post)
    rw [analysisRequest_static w api' (method ▸ post)]
    unfold analysisStaticRequest
    dsimp only
    repeat' split
    all_goals exact ⟨rfl, rfl, fun _ => empty⟩

end Understood

/-! ### One request -/

theorem round {w : World} {s : Conn} (idle : Idle s) (small : q.text.length < 2 ^ 31) :
    ∃ t, q.Understood s t ∧ readBlock w (s.received q.text) = analyse w t ∧
      toAnalysis w (s.received q.text) = .ok t ∧ t.http.error_ = false := by
  obtain ⟨t, stages, understood⟩ := q.understood (w := w) idle small
  have settled := idle.settled.received q.text
  refine ⟨t, understood, ?_, settled.stages.trans stages, ?_⟩
  · rw [settled.block, stages]
    exact if_pos understood.ready.state
  · exact (stages ▸ parseStages_parsed w (s.received q.text)).alive.trans idle.settled.here.error_

theorem flush_traffic (s : Conn) : (flush s).wire.calls = s.wire.calls ∧
    (flush s).wire.served = s.wire.served := by
  refine flush_cases s ⟨rfl, rfl⟩ fun _ => ?_
  unfold handleWrite
  split
  · exact ⟨rfl, rfl⟩
  · exact ⟨rfl, rfl⟩

/-- What the service answers is sent, and the connection is idle again. -/
theorem answers {text : Bytes} (idle : Idle s) (small : q.text.length < 2 ^ 31)
    (replies : q.reply w s.wire.served = some text) :
    Idle (serve w s q.text) ∧ (serve w s q.text).wire.sent = s.wire.sent ++ text ∧
      (serve w s q.text).wire.calls = s.wire.calls ++ q.calls ∧
      (serve w s q.text).wire.served = s.wire.served + 1 := by
  obtain ⟨t, understood, block, stages, _⟩ := q.round (w := w) idle small
  have answer := understood.reply (w := w) small
  obtain ⟨calls, served, used⟩ := understood.effect (w := w) small
  have success : (analysisRequest w t).2 = .success := by
    by_contra refused
    rw [if_neg refused, replies] at answer
    cases answer
  rw [if_pos success, replies, Option.some.injEq] at answer
  have parsed := idle.settled.received q.text
  have alone : Answers w s q.text :=
    .of_stages idle (parsed.stages.symm.trans stages) understood.ready.state success (used success)
  obtain ⟨t', round, stages', last⟩ := alone.round idle
  cases (parsed.stages.symm.trans stages).symm.trans stages'
  have sent := round.alone (.inl last)
  have done := round.flush.2.1
  -- Behind the block only the write and the reset follow.
  have wire : (handleRead w (s.received q.text)).wire = (flush (analyse w t)).wire := by
    have stops : ¬(reset (flush (readBlock w (s.received q.text)))).continues := by
      obtain ⟨timer, http⟩ := reset_http (flush (readBlock w (s.received q.text)))
      refine fun continues => continues.1 ?_
      rw [http]
      exact (flush_buffer _).trans alone.used
    rw [handleRead_finishes done]
    dsimp only
    rw [if_neg stops, reset_wire, block]
  obtain ⟨flushCalls, flushServed⟩ := flush_traffic (analyse w t)
  have wire' : (analyse w t).wire = (analysisRequest w t).1.wire := by rw [analyse_success success]; rfl
  rw [serve_alive idle.settled.here.error_]
  refine ⟨alone.idle idle, ?_, ?_, ?_⟩
  · rw [sent, answer]
    rfl
  · rw [wire, flushCalls, wire', calls]
  · rw [wire, flushServed, wire', served]

/-- What the service refuses ends the connection. -/
theorem refuses (idle : Idle s) (small : q.text.length < 2 ^ 31)
    (replies : q.reply w s.wire.served = none) :
    (serve w s q.text).http.error_ = true ∧
      (serve w s q.text).wire.sent = s.wire.sent ++ q.refusal ∧
      (serve w s q.text).wire.calls = s.wire.calls ++ q.calls := by
  obtain ⟨t, understood, block, _, alive⟩ := q.round (w := w) idle small
  have answer := understood.reply (w := w) small
  obtain ⟨calls, _, _⟩ := understood.effect (w := w) small
  have refused : (analysisRequest w t).2 = .error := by
    cases outcome : (analysisRequest w t).2 with
    | error => rfl
    | success =>
      rw [if_pos outcome, replies] at answer
      cases answer
  have failed : (readBlock w (s.received q.text)).http.error_ = true := by
    rw [block]
    exact (analyse_error alive).mpr refused
  have free : Unblocked t.wire.writes := by
    rw [understood.wire]
    exact idle.settled.quiet.writes
  have wire : (analyse w t).wire = (analysisRequest w t).1.wire := by
    rcases analyse_cases w t with ⟨_, done⟩ | ⟨_, done⟩
    · rw [done]
      rfl
    · rw [done]
      rfl
  rw [serve_alive idle.settled.here.error_, handleRead_failed failed]
  refine ⟨failed, ?_, ?_⟩
  · rw [block, wire, ← understood.wire]
    unfold refusal
    rcases (analysisRequest_outcome w understood.ready free).2 refused with
      ⟨other, page⟩ | ⟨⟨post, _⟩, silent⟩
    · rw [if_neg (understood.method_ ▸ other), page]
    · rw [if_pos (understood.method_ ▸ post), silent, List.append_nil]
  · rw [block, wire, calls]

end ClientRequest

/-! ### A conversation -/

/-- What becomes of a list of requests: the answers to the first of them, perhaps a refusal behind
which the others are not looked at, and the calls of the gateway. -/
structure Conversation where
  answers : List Bytes
  refusal : Option Bytes
  calls : List LightAgentGateway.Request

/-- What is sent. -/
def Conversation.sent (c : Conversation) : Bytes := c.answers.flatten ++ c.refusal.getD []

/-- The service answers one request after another up to the first that it refuses. -/
def converse (w : World) : Nat → List ClientRequest → Conversation
  | _, [] => ⟨[], none, []⟩
  | n, q :: qs =>
    match q.reply w n with
    | none => ⟨[], some q.refusal, q.calls⟩
    | some text =>
      let rest := converse w (n + 1) qs
      { rest with answers := text :: rest.answers, calls := q.calls ++ rest.calls }

/-- The connection has done what the service does. -/
structure Conversation.Done (c : Conversation) (s s' : Conn) : Prop where
  sent : s'.wire.sent = s.wire.sent ++ c.sent
  calls : s'.wire.calls = s.wire.calls ++ c.calls
  error_ : s'.http.error_ = c.refusal.isSome
  idle : c.refusal = none → Idle s'

theorem SameOutcome.done {c : Conversation} {s t t' : Conn} (same : SameOutcome t t')
    (done : c.Done s t) : c.Done s t' where
  sent := same.sent.trans done.sent
  calls := same.calls.trans done.calls
  error_ := same.error_.trans done.error_
  idle answered :=
    (done.idle answered).alike (same.alike (done.error_.trans (by rw [answered]; rfl)))

theorem serveAll_converse {w : World} {s : Conn} {qs : List ClientRequest} (idle : Idle s)
    (small : ∀ q ∈ qs, q.text.length < 2 ^ 31) :
    Takes w s (qs.map ClientRequest.text) ∧
      (converse w s.wire.served qs).Done s (serveAll w s (qs.map ClientRequest.text)) := by
  induction qs generalizing s with
  | nil =>
    exact ⟨trivial, (List.append_nil _).symm, (List.append_nil _).symm,
      idle.settled.here.error_, fun _ => idle⟩
  | cons q qs ih =>
    have small' := small q List.mem_cons_self
    have later := fun q member => small q (List.mem_cons_of_mem _ member)
    unfold converse
    cases replies : q.reply w s.wire.served with
    | none =>
      -- A refusal closes the connection, and the other requests are not looked at.
      obtain ⟨failed, sent, calls⟩ := q.refuses idle small' replies
      obtain ⟨takes, stays⟩ := takes_failed (w := w) failed (qs.map ClientRequest.text)
      have same : serveAll w s ((q :: qs).map ClientRequest.text) = serve w s q.text := stays
      refine ⟨⟨fun _ => idle.takes small', takes⟩, ?_⟩
      rw [same]
      exact ⟨sent, calls, failed, nofun⟩
    | some text =>
      obtain ⟨idle', sent, calls, served⟩ := q.answers idle small' replies
      obtain ⟨takes, rest⟩ := ih idle' later
      rw [served] at rest
      refine ⟨⟨fun _ => idle.takes small', takes⟩, ?_, ?_, rest.error_, rest.idle⟩
      · refine rest.sent.trans ?_
        unfold Conversation.sent
        rw [sent, List.flatten_cons, List.append_assoc, List.append_assoc]
      · exact rest.calls.trans (by rw [calls, List.append_assoc])

theorem ClientRequest.text_ne_nil (q : ClientRequest) : q.text ≠ [] := by
  intro empty
  have length := q.length_text
  rw [empty] at length
  exact absurd length (by simp)

/-- However the bytes of the requests are cut into chunks that the connection can take, it does
what the service does. -/
theorem Takes.done {w : World} {s : Conn} {qs : List ClientRequest} {as : List Arrival}
    {chunks : List Bytes} (takes : Takes w s chunks) (idle : Idle s)
    (small : ∀ q ∈ qs, q.text.length < 2 ^ 31) (brings : List.Forall₂ Arrival.Brings as chunks)
    (solid : [] ∉ chunks) (whole : chunks.flatten = qs.flatMap ClientRequest.text) :
    (converse w s.wire.served qs).Done s (arrivals w s as) := by
  obtain ⟨takes', done⟩ := serveAll_converse (w := w) idle small
  have solid' : [] ∉ qs.map ClientRequest.text := by
    intro member
    obtain ⟨q, _, empty⟩ := List.mem_map.mp member
    exact q.text_ne_nil empty
  have same := serveAll_same (Alike.refl idle.settled.quiet).same (fun _ => idle.settled) solid'
    solid (whole.symm ▸ List.flatMap_def ..).symm takes' takes
  exact (same.trans (arrivals_same (fun _ => idle.settled) brings takes)).done done

end LightAgent

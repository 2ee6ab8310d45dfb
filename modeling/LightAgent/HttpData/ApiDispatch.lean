import LightAgent.HttpData.Rejections

/-!
# Requests for the API

`handleRead` waits for the body of a POST before the request is analysed, and the name that leads
to `analysisApiRequest` leads to a route of the gateway. So the guards made there once more refuse
nothing.
-/
namespace LightAgent

open Library

/-- The request is answered, with the body that its length declares, and what follows the body
stays in the buffer. -/
structure Dispatched (view : LightAgentGateway.View) (s : Conn) (out : Conn × AnalysisState) :
    Prop where
  success : out.2 = .success
  declared : s.http.method_ = .post → s.http.getContentLength = some s.http.apiBody.length
  bodiless : s.http.method_ ≠ .post → s.http.apiBody = []
  answered : ∃ response, LightAgentGateway.handle view
    ⟨toGatewayMethod s.http.method_, bytes "/" ++ s.http.fileName_, s.http.apiBody⟩ = some response
  called : out.1.wire.calls = s.wire.calls ++
    [⟨toGatewayMethod s.http.method_, bytes "/" ++ s.http.fileName_, s.http.apiBody⟩]
  rest : s.http.inBuffer_ = s.http.apiBody ++ out.1.http.inBuffer_

/-- An answer of the gateway is passed on, and the body of the request is used up. -/
theorem answerApiRequest_answers {view : LightAgentGateway.View} {s : Conn}
    {response : LightAgentGateway.Response} {body : Bytes} (contentLength : Option Nat)
    (answer : LightAgentGateway.handle view
      ⟨toGatewayMethod s.http.method_, bytes "/" ++ s.http.fileName_, body⟩ = some response) :
    (answerApiRequest view s contentLength body).2 = .success ∧
      (answerApiRequest view s contentLength body).1.wire.calls = s.wire.calls ++
        [⟨toGatewayMethod s.http.method_, bytes "/" ++ s.http.fileName_, body⟩] ∧
      (answerApiRequest view s contentLength body).1.http.inBuffer_ =
        s.http.inBuffer_.drop (contentLength.getD 0) := by
  unfold answerApiRequest
  dsimp only
  rw [answer]
  cases contentLength with
  | none => exact ⟨rfl, rfl, rfl⟩
  | some n => exact ⟨rfl, rfl, rfl⟩

/-- A request that is complete passes every guard. -/
theorem analysisApiRequest_dispatched (view : LightAgentGateway.View) {s : Conn}
    (api : (bytes "api/").isPrefixOf s.http.fileName_ = true)
    (complete : s.http.method_ = .post →
      ∃ n : Nat, s.http.getContentLength = some n ∧ (n : Int) ≤ toInt s.http.inBuffer_.length) :
    Dispatched view s (analysisApiRequest view s) := by
  obtain ⟨response, answer⟩ :=
    handle_api view (toGatewayMethod s.http.method_) api s.http.apiBody
  by_cases post : s.http.method_ = .post
  · obtain ⟨n, length, enough⟩ := complete post
    -- The `int` that the size narrows to is not greater than the size.
    have covered : n ≤ s.http.inBuffer_.length := toInt_nonneg_le enough
    have body : s.http.apiBody = s.http.inBuffer_.take n := by
      unfold HttpData.apiBody
      rw [if_pos post, length]
      rfl
    have runs : analysisApiRequest view s = answerApiRequest view s (some n) s.http.apiBody := by
      unfold analysisApiRequest
      rw [if_pos post, length, body]
      exact if_neg (Int.not_lt.mpr enough)
    obtain ⟨success, called, left⟩ := answerApiRequest_answers (some n) answer
    rw [← runs] at success called left
    refine ⟨success, fun _ => ?_, fun other => absurd post other, ⟨response, answer⟩, called, ?_⟩
    · rw [length, body, List.length_take_of_le covered]
    · rw [left, body]
      exact (List.take_append_drop _ _).symm
  · have body : s.http.apiBody = [] := if_neg post
    have runs : analysisApiRequest view s = answerApiRequest view s none s.http.apiBody := by
      rw [body]
      exact if_neg post
    obtain ⟨success, called, left⟩ := answerApiRequest_answers none answer
    rw [← runs] at success called left
    refine ⟨success, fun other => absurd other post, fun _ => body, ⟨response, answer⟩, called, ?_⟩
    rw [left, body]
    rfl

/-- A block that comes to the analysis of a request for the API dispatches it. -/
def Stream.Dispatches (w : World) (s : Stream) : Prop :=
  s.point = .block → ∀ t, toAnalysis w s.conn = .ok t →
    (bytes "api/").isPrefixOf t.http.fileName_ = true →
    let counted := { t with wire := { t.wire with served := t.wire.served + 1 } }
    t.http.state_ = .analysis ∧
      analysisRequest w t = analysisApiRequest (w.gateway t.wire.served) counted ∧
      Dispatched (w.gateway t.wire.served) counted
        (analysisApiRequest (w.gateway t.wire.served) counted)

theorem Stream.Attending.dispatches {w : World} {s : Stream} (attending : s.Attending) :
    s.Dispatches w := by
  intro point t stages api
  obtain ⟨_, before⟩ := attending.block point
  obtain ⟨ready, _⟩ := toAnalysis_ok before stages
  exact ⟨ready.state, analysisRequest_api w api, analysisApiRequest_dispatched _ api ready.body⟩

/-- In every run of a connection, whatever is read and whatever its writes meet, each request for
the API that is analysed is dispatched. -/
theorem api_dispatch_never_fails {w : World} {s : Stream} (start : s.Fresh)
    (ls : List StreamLabel) :
    (Stream.machine w).Along (fun s _ _ => s.Dispatches w) s ls := by
  apply Machine.along_of_invariant (I := Stream.Attending)
  · intro s _ _ attending _
    exact attending.dispatches
  · intro _ _ _ attending taken
    exact Stream.step_attending attending taken
  · exact Stream.fresh_attending start

/-- The body comes in an event of its own. -/
def chatDelivery : List StreamLabel :=
  delivery (bytes "POST /api/chat HTTP/1.1\r\nContent-Length: 2\r\n\r\n") ++ delivery (bytes "hi")

theorem api_dispatch_never_fails_chat :
    let request : LightAgentGateway.Request := ⟨.post, bytes "/api/chat", bytes "hi"⟩
    let response := LightAgentGateway.chat request
    (Stream.machine .bare).Along (fun s _ _ => s.Dispatches .bare) .sample chatDelivery ∧
      ∃ s, (Stream.machine .bare).exec .sample chatDelivery = some s ∧
        s.conn.wire.calls = [request] ∧
        s.conn.wire.sent = apiHeader response false ++ response.body := by
  intro request response
  exact ⟨api_dispatch_never_fails Stream.sample_fresh _,
    Machine.exec_any (fun s : Stream => s.conn.wire.calls = [request] ∧
      s.conn.wire.sent = apiHeader response false ++ response.body) _ _ (by decide +kernel)⟩

end LightAgent

import LightAgent.HttpData.FailStop

/-!
# The traffic of a connection

What has been sent stays sent, and what the gateway has been asked stays asked: a handler only adds
to both.
-/
namespace LightAgent

open Library

/-- A handler adds to what was sent and to what was asked. -/
structure Grows (s s' : Conn) : Prop where
  sent : s.wire.sent <+: s'.wire.sent
  calls : s.wire.calls <+: s'.wire.calls

namespace Grows

variable {s s' s'' : Conn}

theorem of_same (sent : s'.wire.sent = s.wire.sent) (calls : s'.wire.calls = s.wire.calls) :
    Grows s s' := by
  constructor
  · simp [sent]
  · simp [calls]

theorem of_wire (wire : s'.wire = s.wire) : Grows s s' :=
  .of_same (congrArg Wire.sent wire) (congrArg Wire.calls wire)

theorem trans (first : Grows s s') (second : Grows s' s'') : Grows s s'' :=
  ⟨first.sent.trans second.sent, first.calls.trans second.calls⟩

end Grows

/-! ### The calls of a block -/

/-- Up to its analysis a request calls nobody. -/
theorem toAnalysis_calls {w : World} {s t : Conn}
    (ends : toAnalysis w s = .ok t ∨ toAnalysis w s = .error t) : t.wire.calls = s.wire.calls := by
  unfold toAnalysis at ends
  have read := readStage_outcome s
  generalize readStage s = r at read ends
  cases read with
  | stops inBuffer rest _ =>
    rcases ends with ends | ends
    · cases ends
    · cases ends
      rfl
  | fails inBuffer rest _ _ =>
    rcases ends with ends | ends
    · cases ends
    · cases ends
      rfl
  | goesOn inBuffer rest state _ _ _ =>
    have parsed := parseStages_parsed w (readInto s inBuffer rest state)
    rcases ends with ends | ends
    · change parseStages w (readInto s inBuffer rest state) = .ok t at ends
      rw [ends] at parsed
      obtain ⟨h, rfl, _⟩ := parsed.of_ok
      rfl
    · change parseStages w (readInto s inBuffer rest state) = .error t at ends
      rw [ends] at parsed
      obtain ⟨h, _, ⟨rfl, _⟩ | ⟨msg, rfl, _⟩⟩ := parsed.of_error
      · rfl
      · rfl

theorem answerApiRequest_calls (view : LightAgentGateway.View) (s : Conn)
    (contentLength : Option Nat) (body : Bytes) :
    s.wire.calls <+: (answerApiRequest view s contentLength body).1.wire.calls := by
  unfold answerApiRequest
  dsimp only
  split
  · exact List.prefix_append _ _
  · exact List.prefix_append _ _

theorem analysisApiRequest_calls (view : LightAgentGateway.View) (s : Conn) :
    s.wire.calls <+: (analysisApiRequest view s).1.wire.calls := by
  unfold analysisApiRequest
  repeat' split
  · exact List.prefix_rfl
  · exact List.prefix_rfl
  · exact answerApiRequest_calls view s _ _
  · exact answerApiRequest_calls view s _ _

theorem analysisStaticRequest_calls (fs : Bytes → Option FileStat) (s : Conn) :
    (analysisStaticRequest fs s).1.wire.calls = s.wire.calls := by
  unfold analysisStaticRequest
  dsimp only
  repeat' split
  all_goals rfl

theorem analysisRequest_calls (w : World) (s : Conn) :
    s.wire.calls <+: (analysisRequest w s).1.wire.calls := by
  unfold analysisRequest
  dsimp only
  split
  · exact analysisApiRequest_calls _ { s with wire := { s.wire with served := s.wire.served + 1 } }
  · split
    · exact List.prefix_rfl
    · simp [analysisStaticRequest_calls]
    · simp [analysisStaticRequest_calls]

theorem readBlock_calls (w : World) (s : Conn) :
    s.wire.calls <+: (readBlock w s).wire.calls := by
  unfold readBlock
  cases ends : toAnalysis w s with
  | error t =>
    change _ <+: t.wire.calls
    simp [toAnalysis_calls (.inr ends)]
  | ok t =>
    have asked := analysisRequest_calls w t
    rw [toAnalysis_calls (.inl ends)] at asked
    unfold endBlock
    dsimp only
    split
    · rcases analyse_cases w t with ⟨_, eq⟩ | ⟨_, eq⟩
      · rw [eq]
        exact asked
      · rw [eq]
        exact asked
    · simp [toAnalysis_calls (.inl ends)]

/-! ### The handlers -/

namespace Grows

theorem readBlock (w : World) (s : Conn) : Grows s (readBlock w s) := by
  refine ⟨?_, readBlock_calls w s⟩
  rcases Stream.readBlock_sent w s with unsent | ⟨page, _, sent⟩
  · simp [unsent]
  · rw [sent, List.append_assoc]
    exact List.prefix_append _ _

theorem handleWrite (s : Conn) : Grows s (handleWrite s) := by
  unfold LightAgent.handleWrite
  split
  · exact ⟨List.prefix_append _ _, List.prefix_rfl⟩
  · exact .of_wire rfl

theorem flush (s : Conn) : Grows s (flush s) :=
  flush_cases s (.of_wire rfl) fun _ => handleWrite s

theorem round (w : World) (s : Conn) : Grows s (LightAgent.flush (LightAgent.readBlock w s)) :=
  (readBlock w s).trans (flush _)

theorem handleRead (w : World) (s : Conn) : Grows s (handleRead w s) := by
  refine handleRead_induct (motive := Grows) ?_ ?_ ?_ s
  · intro s _
    obtain ⟨events, rearmed⟩ := rearm_events (LightAgent.flush (LightAgent.readBlock w s))
    rw [rearmed]
    exact (round w s).trans (.of_wire rfl)
  · intro s _ _
    exact (round w s).trans (.of_wire (reset_wire _))
  · intro s t _ _ later
    exact ((round w s).trans (.of_wire (reset_wire _))).trans later

theorem dispatch (w : World) (s : Conn) : Grows s (dispatch w s) := by
  unfold LightAgent.dispatch
  dsimp only
  have read : Grows s (if s.http.channel_.revents_.has (EPOLLIN ||| EPOLLPRI ||| EPOLLRDHUP) then
      LightAgent.handleRead w s else s) := by
    split
    · exact handleRead w s
    · exact .of_wire rfl
  split
  · exact read.trans (handleWrite _)
  · exact read

theorem handleEvents (w : World) (s : Conn) : Grows s (handleEvents w s) := by
  unfold LightAgent.handleEvents
  dsimp only
  have told : Grows s (s.setEvents 0) := .of_wire rfl
  split
  · exact told
  · exact (told.trans (dispatch w _)).trans (.of_wire (handleConn_wire _))

end Grows

end LightAgent

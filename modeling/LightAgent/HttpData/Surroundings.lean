import LightAgent.HttpData.Returns
import LightAgent.HttpData.Traffic
import LightAgent.LightAgentGateway.Counters

/-!
# What a connection sees of the counters

The gateway counts the requests of all connections together, so what `metrics` answers one of them
is changed by the others. No other answer is: to a connection that does not ask for `metrics`, two
worlds that differ in what only `metrics` shows are the same.
-/
namespace LightAgent

open Library LightAgentGateway

/-- A world in which others have asked for much. -/
def World.busy : World :=
  { World.bare with gateway := fun n => ⟨none, none, [], n, 1000 + n, 100 + n⟩ }

/-- The gateway has not been asked for `metrics`. -/
def Conn.Uncounted (s : Conn) : Prop := ∀ request ∈ s.wire.calls, ¬AsksMetrics request

instance (s : Conn) : Decidable s.Uncounted := inferInstanceAs (Decidable (∀ _ ∈ _, _))

section

variable {w w' : World} {s t : Conn}

/-! ### The block -/

end

end LightAgent

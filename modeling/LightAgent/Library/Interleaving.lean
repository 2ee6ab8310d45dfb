import LightAgent.Library.Runs

/-!
# Runs that differ in their interleaving

Labels of different threads are independent where either order of two steps leads to the same
state; a label that is no thread's concerns all of them. Two interleavings in which each thread
sees the same labels in the same order are shuffles of each other, and lead to the same state.
-/
namespace LightAgent.Library

variable {State Label Thread : Type*}

variable {thread : Label → Option Thread}

namespace Machine

variable {M : Machine State Label}

end Machine

/-! ### What each thread sees -/

variable [DecidableEq Thread]

end LightAgent.Library

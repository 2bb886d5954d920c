import RuleGraph.Value.Explicit
/-!
# The progress of nodes
-/
namespace RuleGraph

inductive Progress where
  | pending
  | evaluating
  | done (output : Value)
  | failed
  deriving Repr

namespace Progress

def output? : Progress → Option Value
  | done output => some output
  | _ => none

def explicit : Progress → String
  | pending => "Pending"
  | evaluating => "Evaluating"
  | done output => "Done(" ++ output.explicit ++ ")"
  | failed => "Failed"

end Progress

/-- A step that the progress of the nodes does not allow. -/
inductive ProgressFault where
  | cannotStart (position : Nat) (state : Progress)
  | noNode (position : Nat)
  | notCompleted (position : Nat)
  deriving Repr

def ProgressFault.text : ProgressFault → String
  | cannotStart position state =>
    s!"node at position {position} cannot start from state " ++ state.explicit
  | noNode position => s!"no node at position {position}"
  | notCompleted position => s!"upstream node at position {position} has not completed"

end RuleGraph

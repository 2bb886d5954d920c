import RuleGraph.Run.Options
import RuleGraph.Run.Progress
import RuleGraph.Run.Trace
import RuleGraph.Value.Merge
/-!
# The state of an evaluation

The input, the progress of each node and the trace, for one evaluation of one decision.
-/
namespace RuleGraph

structure Context where
  input : Value
  /-- How deep the decision lies below the one that was asked for. -/
  iteration : UInt8
  options : Options
  states : List Progress
  trace : Option (List Entry)
  deriving Repr

namespace Context

def initial (input : Value) (iteration : UInt8) (options : Options) (size : Nat) : Context where
  input
  iteration
  options
  states := List.replicate size .pending
  trace := if options.trace then some [] else none

def state? (c : Context) (position : Nat) : Option Progress :=
  c.states[position]?

def output? (c : Context) (position : Nat) : Option Value :=
  (c.state? position).bind Progress.output?

def set (c : Context) (position : Nat) (state : Progress) : Context :=
  { c with states := c.states.set position state }

def start (c : Context) (position : Nat) : Except ProgressFault Context :=
  match c.state? position with
  | some .pending => .ok (c.set position .evaluating)
  | some state => .error (.cannotStart position state)
  | none => .error (.noNode position)

def complete (c : Context) (position : Nat) (output : Value) : Except ProgressFault Context :=
  match c.state? position with
  | some _ => .ok (c.set position (.done output))
  | none => .error (.noNode position)

def fail (c : Context) (position : Nat) : Context :=
  c.set position .failed

def outputs (c : Context) : List Nat → Except ProgressFault (List Value)
  | [] => .ok []
  | position :: rest =>
    match c.output? position with
    | some v => do return v :: (← c.outputs rest)
    | none => .error (.notCompleted position)

def nodeInput (c : Context) (sources : List Nat) : Except ProgressFault Value := do
  return .mergeAll (← c.outputs sources)

/-- The outputs at positions, as far as they are there, merged in their order. -/
def mergedOutputs (c : Context) (positions : List Nat) : Value :=
  .mergeAll (positions.filterMap c.output?)

def record [Clock] (c : Context) (visit : Visit) : Context :=
  { c with trace := c.trace.map (· ++ [visit.timed]) }

def takeTrace (c : Context) : Option (List Entry) × Context :=
  (c.trace, { c with trace := none })

@[simp] theorem length_states_set (c : Context) (position : Nat) (state : Progress) :
    (c.set position state).states.length = c.states.length := by
  simp [set]

end Context
end RuleGraph

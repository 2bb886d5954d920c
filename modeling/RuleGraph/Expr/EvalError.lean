import RuleGraph.Expr.Builtin
import RuleGraph.Expr.Operator
import RuleGraph.Number.Notation
/-!
# Why an expression has no value

The causes, and the message of each. Values are named by their kinds.
-/
namespace RuleGraph

inductive TypeFault where
  /-- An interval stands where its value would be needed. -/
  | bareInterval
  | notBoolean (operator kind : String)
  | boundKinds (start stop : String)
  | outsideNumbers (kind : String)
  | notOperand (kind : String)
  | negateOperand (kind : String)
  | operands (op : Operator) (left right : String)
  | outOfRange (x : Float)
  | searchInString (kind : String)
  | noCollection (op : Operator) (kind : String)
  | incomparable (left right : String) (op : Operator)
  deriving Repr

def TypeFault.text : TypeFault → String
  | bareInterval => "interval can only be used on the right side of 'in'"
  | notBoolean operator kind => s!"'{operator}' expects bool operands, got {kind}"
  | boundKinds start stop => s!"interval bounds must be numbers, got {start} and {stop}"
  | outsideNumbers kind => s!"cannot test {kind} against a numeric interval"
  | notOperand kind => s!"'not' expects a bool, got {kind}"
  | negateOperand kind => s!"'-' expects a number, got {kind}"
  | operands op left right => s!"cannot apply '{op.symbol}' to {left} and {right}"
  | outOfRange x => "numeric result " ++ String.ofList (Number.plain.write x) ++ " is out of range"
  | searchInString kind => s!"cannot search for {kind} in a string"
  | noCollection op kind =>
    s!"'{op.symbol}' expects an array, object, string or interval, got {kind}"
  | incomparable left right op => s!"cannot compare {left} and {right} with '{op.symbol}'"

inductive ArgumentFault where
  | count (n : Nat)
  | kind (expected actual : String)
  | notNumber (text : String)
  | noClosure
  | notClosure
  | missing (position : Nat)
  deriving Repr

def ArgumentFault.text : ArgumentFault → String
  | count n => s!"unexpected argument count {n}"
  | kind expected actual => s!"expected {expected}, got {actual}"
  | notNumber text => s!"'{text}' is not a number"
  | noClosure => "closure function called without a closure"
  | notClosure => "not a closure function"
  | missing position =>
    s!"index out of bounds: the len is {position} but the index is {position}"

inductive EvalError where
  | type (fault : TypeFault)
  | undefined (name : String)
  | divisionByZero
  | argument (f : Builtin) (fault : ArgumentFault)
  | notTest (kind : String)
  deriving Repr

def EvalError.message : EvalError → String
  | type fault => "Type error: " ++ fault.text
  | undefined name => "Undefined reference: " ++ name
  | divisionByZero => "Division by zero"
  | argument f fault => s!"Invalid argument to '{f.name}': " ++ fault.text
  | notTest kind => "Unary expression must evaluate to a boolean, got " ++ kind

end RuleGraph

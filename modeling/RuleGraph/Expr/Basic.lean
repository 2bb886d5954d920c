import RuleGraph.Expr.Builtin
import RuleGraph.Expr.Operator
import RuleGraph.Value.Basic
/-!
# Expressions
-/
namespace RuleGraph

inductive Expr where
  | literal (v : Value)
  | field (path : List String)
  /-- The value `$` that a cell is about. -/
  | subject
  /-- The element `#` that a closure is about. -/
  | element
  | index (base key : Expr)
  | binary (left : Expr) (op : Operator) (right : Expr)
  | unary (op : UnaryOperator) (operand : Expr)
  | call (f : Builtin) (args : List Expr)
  | ternary (condition yes no : Expr)
  | array (items : List Expr)
  /-- The entries in the order of the source; a later one replaces an earlier one of its key. -/
  | object (entries : List (String × Expr))
  | interval (start stop : Expr) (startIncluded stopIncluded : Bool)
  deriving Repr, Inhabited

namespace Expr

def bool (b : Bool) : Expr :=
  .literal (.bool b)

def number (x : Float) : Expr :=
  .literal (.number x)

def string (s : String) : Expr :=
  .literal (.string s)

mutual

/-- Whether `$` occurs anywhere, closures included. -/
def mentionsSubject : Expr → Bool
  | .subject => true
  | .literal _ | .field _ | .element => false
  | .index base key => base.mentionsSubject || key.mentionsSubject
  | .binary left _ right => left.mentionsSubject || right.mentionsSubject
  | .unary _ operand => operand.mentionsSubject
  | .call _ args => anyMentionsSubject args
  | .ternary condition yes no =>
    condition.mentionsSubject || yes.mentionsSubject || no.mentionsSubject
  | .array items => anyMentionsSubject items
  | .object entries => entriesMentionSubject entries
  | .interval start stop _ _ => start.mentionsSubject || stop.mentionsSubject
termination_by structural e => e

def anyMentionsSubject : List Expr → Bool
  | [] => false
  | e :: rest => e.mentionsSubject || anyMentionsSubject rest
termination_by structural es => es

def entriesMentionSubject : List (String × Expr) → Bool
  | [] => false
  | (_, e) :: rest => e.mentionsSubject || entriesMentionSubject rest
termination_by structural entries => entries

end

def isCollection : Expr → Bool
  | .array _ | .interval _ _ _ _ => true
  | _ => false

end Expr
end RuleGraph

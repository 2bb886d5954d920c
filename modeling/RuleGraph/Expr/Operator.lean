/-!
# Operators
-/
namespace RuleGraph

inductive Operator where
  | eq | ne | gt | ge | lt | le
  | add | sub | mul | div | mod | pow
  | and | or | coalesce
  | member | notMember
  deriving DecidableEq, Repr

inductive UnaryOperator where
  | not | negate
  deriving DecidableEq, Repr

namespace Operator

def all : List Operator :=
  [eq, ne, gt, ge, lt, le, add, sub, mul, div, mod, pow, and, or, coalesce, member, notMember]

def symbol : Operator → String
  | eq => "=="
  | ne => "!="
  | gt => ">"
  | ge => ">="
  | lt => "<"
  | le => "<="
  | add => "+"
  | sub => "-"
  | mul => "*"
  | div => "/"
  | mod => "%"
  | pow => "^"
  | and => "and"
  | or => "or"
  | coalesce => "??"
  | member => "in"
  | notMember => "not in"

def tag : Operator → String
  | eq => "Eq"
  | ne => "Ne"
  | gt => "Gt"
  | ge => "Ge"
  | lt => "Lt"
  | le => "Le"
  | add => "Add"
  | sub => "Sub"
  | mul => "Mul"
  | div => "Div"
  | mod => "Mod"
  | pow => "Pow"
  | and => "And"
  | or => "Or"
  | coalesce => "Coalesce"
  | member => "In"
  | notMember => "NotIn"

def ofTag? (tag : String) : Option Operator :=
  all.find? (·.tag == tag)

def isComparison : Operator → Bool
  | eq | ne | gt | ge | lt | le => true
  | _ => false

def isArithmetic : Operator → Bool
  | add | sub | mul | div | mod | pow => true
  | _ => false

def isLogical : Operator → Bool
  | and | or | coalesce => true
  | _ => false

def isMembership : Operator → Bool
  | member | notMember => true
  | _ => false

end Operator

namespace UnaryOperator

def tag : UnaryOperator → String
  | not => "Not"
  | negate => "Negate"

def ofTag? (tag : String) : Option UnaryOperator :=
  [not, negate].find? (·.tag == tag)

end UnaryOperator
end RuleGraph

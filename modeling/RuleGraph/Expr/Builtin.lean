/-!
# Built-in functions

The functions that expressions may call. The set is closed, so that an unknown name and a wrong
number of arguments are found when an expression is parsed.
-/
namespace RuleGraph

inductive Builtin where
  | len | upper | lower | trim | startsWith | endsWith | contains | join | split
  | abs | floor | ceil | round | min | max | sum | avg
  | number | string | bool | isNull
  | keys | values | flatten
  | filter | map | some | all | none | count
  deriving DecidableEq, Repr

namespace Builtin

def every : List Builtin :=
  [len, upper, lower, trim, startsWith, endsWith, contains, join, split, abs, floor, ceil, round,
    min, max, sum, avg, number, string, bool, isNull, keys, values, flatten, filter, map, some, all,
    none, count]

def name : Builtin → String
  | len => "len"
  | upper => "upper"
  | lower => "lower"
  | trim => "trim"
  | startsWith => "startsWith"
  | endsWith => "endsWith"
  | contains => "contains"
  | join => "join"
  | split => "split"
  | abs => "abs"
  | floor => "floor"
  | ceil => "ceil"
  | round => "round"
  | min => "min"
  | max => "max"
  | sum => "sum"
  | avg => "avg"
  | number => "number"
  | string => "string"
  | bool => "bool"
  | isNull => "isNull"
  | keys => "keys"
  | values => "values"
  | flatten => "flatten"
  | filter => "filter"
  | map => "map"
  | some => "some"
  | all => "all"
  | none => "none"
  | count => "count"

/-- The name in stored expressions: the source name with a capital in front. -/
def tag (f : Builtin) : String :=
  f.name.capitalize

def ofName? (name : String) : Option Builtin :=
  every.find? (·.name == name)

def ofTag? (tag : String) : Option Builtin :=
  every.find? (·.tag == tag)

def isClosure : Builtin → Bool
  | filter | map | some | all | none | count => true
  | _ => false

/-- The least and the greatest number of arguments; there need be no greatest. -/
def arity (f : Builtin) : Nat × Option Nat :=
  match f with
  | startsWith | endsWith | contains | join | split => (2, Option.some 2)
  | round => (1, Option.some 2)
  | min | max => (1, Option.none)
  | _ => if f.isClosure then (2, Option.some 2) else (1, Option.some 1)

def accepts (f : Builtin) (count : Nat) : Bool :=
  decide (f.arity.1 ≤ count) && match f.arity.2 with
    | Option.some most => decide (count ≤ most)
    | Option.none => true

end Builtin
end RuleGraph

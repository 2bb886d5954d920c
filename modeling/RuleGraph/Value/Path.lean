import RuleGraph.Value.Basic
import RuleGraph.Number.Reading
/-!
# Paths into values

A path is a list of segments. A segment names a member of an object, or an item of an array if it is
a number.
-/
namespace RuleGraph

/-- The index that a segment stands for: digits, perhaps after a plus. -/
def indexOf (segment : String) : Option Nat :=
  let digits := match segment.toList with
    | '+' :: cs => cs
    | cs => cs
  let n := Number.appendDigits 0 digits
  if digits.isEmpty || !digits.all Char.isDigit || decide (Nat.pow 2 64 ≤ n) then none else some n

namespace Value

def child (segment : String) : Value → Option Value
  | .object members => Members.get? segment members
  | .array items => (indexOf segment).bind (items[·]?)
  | _ => none

def getPath : List String → Value → Option Value
  | [], v => some v
  | segment :: rest, v => (v.child segment).bind (getPath rest)

/-- Stores a value under a path of keys. Objects are made on the way, in place of what is none. -/
def setPath : List String → (v x : Value) → Value
  | [], _, x => x
  | key :: rest, v, x =>
    let inner := (v.get? key).getD empty
    .object (Members.insert key (setPath rest inner x) v.members)

end Value

def Json.child (segment : String) : Json → Option Json
  | .object members => Members.get? segment members
  | .array items => (indexOf segment).bind (items[·]?)
  | _ => none

def Json.getPath : List String → Json → Option Json
  | [], j => some j
  | segment :: rest, j => (j.child segment).bind (Json.getPath rest)

end RuleGraph

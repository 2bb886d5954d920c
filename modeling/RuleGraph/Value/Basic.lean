import RuleGraph.Json.Basic
import RuleGraph.Number.Binary64
/-!
# Values

What rules compute with. Every number is a floating-point number, and an object has its members in
the order of their keys.
-/
namespace RuleGraph

inductive Value where
  | null
  | bool (b : Bool)
  | number (x : Float)
  | string (s : String)
  | array (items : List Value)
  | object (members : List (String × Value))
  deriving Repr, Inhabited

namespace Value

def empty : Value :=
  .object []

/-- The object with the given members in any order; of equal keys the last counts. -/
def record (members : List (String × Value)) : Value :=
  .object (Members.ofList members)

def strings (ss : List String) : Value :=
  .array (ss.map .string)

def kind : Value → String
  | .null => "null"
  | .bool _ => "bool"
  | .number _ => "number"
  | .string _ => "string"
  | .array _ => "array"
  | .object _ => "object"

def isNull : Value → Bool
  | .null => true
  | _ => false

def members : Value → List (String × Value)
  | .object members => members
  | _ => []

def isObject : Value → Bool
  | .object _ => true
  | _ => false

def get? (key : String) (v : Value) : Option Value :=
  Members.get? key v.members

/-! ## Equality

Numbers are compared as numbers: the two zeros are equal, and what is undefined equals nothing. -/

mutual

def equal : Value → Value → Bool
  | .null, .null => true
  | .bool a, .bool b => a == b
  | .number x, .number y => x == y
  | .string s, .string t => s == t
  | .array xs, .array ys => equalItems xs ys
  | .object ms, .object ns => equalMembers ms ns
  | _, _ => false
termination_by structural v => v

def equalItems : List Value → List Value → Bool
  | [], [] => true
  | x :: xs, y :: ys => x.equal y && equalItems xs ys
  | _, _ => false
termination_by structural xs => xs

def equalMembers : List (String × Value) → List (String × Value) → Bool
  | [], [] => true
  | (k, x) :: ms, (l, y) :: ns => k == l && x.equal y && equalMembers ms ns
  | _, _ => false
termination_by structural ms => ms

end

mutual

def isFinite : Value → Bool
  | .number x => x.isFinite
  | .array items => areFinite items
  | .object members => membersFinite members
  | _ => true
termination_by structural v => v

def areFinite : List Value → Bool
  | [] => true
  | v :: rest => v.isFinite && areFinite rest
termination_by structural vs => vs

def membersFinite : List (String × Value) → Bool
  | [] => true
  | (_, v) :: rest => v.isFinite && membersFinite rest
termination_by structural ms => ms

end

end Value
end RuleGraph

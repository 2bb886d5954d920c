import RuleGraph.Members
/-!
# JSON trees

A number is an integer or a decimal as it was written; an object has its members in the order of
their keys.
-/
namespace RuleGraph

inductive Json where
  | null
  | bool (b : Bool)
  | integer (n : Int)
  | decimal (x : Float)
  | string (s : String)
  | array (items : List Json)
  | object (members : List (String × Json))
  deriving Repr, Inhabited

namespace Json

/-- The object with the given members in any order; of equal keys the last counts. -/
def record (members : List (String × Json)) : Json :=
  .object (Members.ofList members)

def strings (ss : List String) : Json :=
  .array (ss.map .string)

def member (key : String) : Json → Option Json
  | .object members => Members.get? key members
  | _ => none

mutual

/-- The tree with null for each decimal that is not finite. -/
def finite : Json → Json
  | .decimal x => if x.isFinite then .decimal x else .null
  | .array items => .array (finiteItems items)
  | .object members => .object (finiteMembers members)
  | j => j
termination_by structural j => j

def finiteItems : List Json → List Json
  | [] => []
  | j :: rest => j.finite :: finiteItems rest
termination_by structural items => items

def finiteMembers : List (String × Json) → List (String × Json)
  | [] => []
  | (k, j) :: rest => (k, j.finite) :: finiteMembers rest
termination_by structural members => members

end

end Json
end RuleGraph

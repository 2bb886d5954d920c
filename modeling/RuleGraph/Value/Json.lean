import RuleGraph.Json.Printer
import RuleGraph.Value.Basic
/-!
# Values as JSON

A number without a fraction below the safe bound is an integer, and one that is not finite is null.
-/
namespace RuleGraph

mutual

def Value.ofJson : Json → Value
  | .null => .null
  | .bool b => .bool b
  | .integer n => .number (Float.ofInt n)
  | .decimal x => .number x
  | .string s => .string s
  | .array items => .array (Value.ofItems items)
  | .object members => .object (Value.ofMembers members)
termination_by structural j => j

def Value.ofItems : List Json → List Value
  | [] => []
  | j :: rest => Value.ofJson j :: Value.ofItems rest
termination_by structural items => items

def Value.ofMembers : List (String × Json) → List (String × Value)
  | [] => []
  | (k, j) :: rest => (k, Value.ofJson j) :: Value.ofMembers rest
termination_by structural members => members

end

theorem Value.ofItems_eq_map (items : List Json) : ofItems items = items.map ofJson := by
  induction items with
  | nil => rfl
  | cons j rest ih => rw [ofItems, List.map_cons, ih]

theorem Value.ofMembers_eq_map (members : List (String × Json)) :
    ofMembers members = members.map fun m => (m.1, ofJson m.2) := by
  induction members with
  | nil => rfl
  | cons m rest ih => rw [ofMembers, List.map_cons, ih]

def Json.ofNumber (x : Float) : Json :=
  if Number.isIntegral x then .integer (Number.toInt x)
  else if x.isFinite then .decimal x
  else .null

mutual

def Value.toJson : Value → Json
  | .null => .null
  | .bool b => .bool b
  | .number x => .ofNumber x
  | .string s => .string s
  | .array items => .array (Value.itemsToJson items)
  | .object members => .object (Value.membersToJson members)
termination_by structural v => v

def Value.itemsToJson : List Value → List Json
  | [] => []
  | v :: rest => v.toJson :: Value.itemsToJson rest
termination_by structural items => items

def Value.membersToJson : List (String × Value) → List (String × Json)
  | [] => []
  | (k, v) :: rest => (k, v.toJson) :: Value.membersToJson rest
termination_by structural members => members

end

theorem Value.itemsToJson_eq_map (items : List Value) : itemsToJson items = items.map toJson := by
  induction items with
  | nil => rfl
  | cons v rest ih => rw [itemsToJson, List.map_cons, ih]

theorem Value.membersToJson_eq_map (members : List (String × Value)) :
    membersToJson members = members.map fun m => (m.1, m.2.toJson) := by
  induction members with
  | nil => rfl
  | cons m rest ih => rw [membersToJson, List.map_cons, ih]

namespace Value

def jsonText (v : Value) : String :=
  v.toJson.text

/-- The text of a value inside another text: a string without quotes, everything else as JSON. A
number that stands alone is never written with an exponent. -/
def text : Value → String
  | .string s => s
  | .number x => String.ofList (Number.text x)
  | v => v.jsonText

/-- The value as its JSON form reads back: zero has no sign, and nothing is left of a number that is
not finite. -/
def normalized (v : Value) : Value :=
  ofJson v.toJson

end Value
end RuleGraph

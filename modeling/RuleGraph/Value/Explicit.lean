import RuleGraph.Number.Notation
import RuleGraph.Text.Quoted
import RuleGraph.Value.Basic
/-!
# Values with their kinds

The form of a value that names the kind of each part, as messages about states show it.
-/
namespace RuleGraph.Value

def explicitNumber (x : Float) : String :=
  String.ofList (Number.explicit.write x)

mutual

def explicit : Value → String
  | .null => "Null"
  | .bool b => if b then "Bool(true)" else "Bool(false)"
  | .number x => "Number(" ++ explicitNumber x ++ ")"
  | .string s => "String(" ++ Text.quoted s ++ ")"
  | .array items => "Array([" ++ ", ".intercalate (explicitItems items) ++ "])"
  | .object members => "Object(\x7b" ++ ", ".intercalate (explicitMembers members) ++ "\x7d)"
termination_by structural v => v

def explicitItems : List Value → List String
  | [] => []
  | v :: rest => v.explicit :: explicitItems rest
termination_by structural items => items

def explicitMembers : List (String × Value) → List String
  | [] => []
  | (k, v) :: rest => (Text.quoted k ++ ": " ++ v.explicit) :: explicitMembers rest
termination_by structural members => members

end

end RuleGraph.Value

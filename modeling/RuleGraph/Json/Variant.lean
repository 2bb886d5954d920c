import RuleGraph.Form
/-!
# Variants in JSON

A variant without content is its tag as a string; another is an object whose only member has the tag
as its key.
-/
namespace RuleGraph.Json

mutual

def depth : Json → Nat
  | .array items => itemsDepth items + 1
  | .object members => membersDepth members + 1
  | _ => 0
termination_by structural j => j

def itemsDepth : List Json → Nat
  | [] => 0
  | j :: rest => max j.depth (itemsDepth rest)
termination_by structural items => items

def membersDepth : List (String × Json) → Nat
  | [] => 0
  | (_, j) :: rest => max j.depth (membersDepth rest)
termination_by structural members => members

end

def variant (tag : String) (content : Json) : Json :=
  .object [(tag, content)]

def variant? : Json → Option (String × Option Json)
  | .string tag => some (tag, none)
  | .object [(tag, content)] => some (tag, some content)
  | _ => none

/-- The tag of a variant without content. -/
def tag? (j : Json) : Option String :=
  match j.variant? with
  | some (tag, none) => some tag
  | some (tag, some .null) => some tag
  | _ => none

def fields? (names : List String) (j : Json) : Option (List (String × Json)) :=
  match j with
  | .object members => Form.select (names.map .named) members
  | _ => none

def strings? (j : Json) : Option (List String) := do
  (← j.array?).mapM string?

/-- A tree that may be null or missing. -/
def optional {β : Type} (decode : Json → Option β) (j : Option Json) : Option (Option β) :=
  match j with
  | none => some none
  | some .null => some none
  | some j => (decode j).map some

end RuleGraph.Json

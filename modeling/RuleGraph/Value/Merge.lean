import RuleGraph.Value.Basic
/-!
# Deep merge

Two objects are merged key by key; in every other case the later value replaces the earlier one.
-/
namespace RuleGraph.Value

mutual

/-- Merges a later value into an earlier one. -/
def merge (v : Value) : Value → Value
  | .object later =>
    match v with
    | .object earlier => .object (mergeMembers earlier later)
    | _ => .object later
  | later => later
termination_by structural later => later

def mergeMembers (earlier : List (String × Value)) : List (String × Value) → List (String × Value)
  | [] => earlier
  | (key, v) :: later =>
    let merged := match Members.get? key earlier with
      | some existing => existing.merge v
      | none => v
    mergeMembers (Members.insert key merged earlier) later
termination_by structural later => later

end

def mergeAll (vs : List Value) : Value :=
  vs.foldl merge empty

end RuleGraph.Value

import RuleGraph.Host.Request
import RuleGraph.Proofs.Text.Pieces
import RuleGraph.Proofs.Value.Parts
/-!
# Walks along paths

A path is followed in the configuration of a node as it was written, in a value, and in the context
of an expression. A tree and the value that it stands for have the same parts under every path. The
context only differs in what it says of a path that leads nowhere.
-/
namespace RuleGraph

theorem Members.get?_eq_none_iff {α : Type} {key : String} {members : List (String × α)} :
    get? key members = none ↔ key ∉ members.map Prod.fst := by
  induction members with
  | nil => simp [get?]
  | cons m rest ih =>
    rw [get?, List.map_cons, List.mem_cons, not_or, ← ih, eq_comm (a := key)]
    split
    · next h => exact iff_of_false (Option.some_ne_none _) fun hne => hne.1 h
    · next h => exact (and_iff_right h).symm

namespace Value

theorem get?_ofMembers (key : String) (members : List (String × Json)) :
    Members.get? key (ofMembers members) = (Members.get? key members).map ofJson := by
  induction members with
  | nil => rfl
  | cons m rest ih =>
    obtain ⟨k, j⟩ := m
    rw [ofMembers, Members.get?, Members.get?, ih]
    split <;> rfl

theorem child_ofJson (segment : String) (j : Json) :
    (ofJson j).child segment = (j.child segment).map ofJson := by
  cases j with
  | array items =>
    rw [ofJson, child, Json.child, ofItems_eq_map]
    cases indexOf segment with
    | none => rfl
    | some n => exact List.getElem?_map
  | object members => exact get?_ofMembers segment members
  | _ => rfl

theorem getPath_ofJson (path : List String) (j : Json) :
    (ofJson j).getPath path = (j.getPath path).map ofJson := by
  induction path generalizing j with
  | nil => rfl
  | cons segment rest ih =>
    rw [getPath, Json.getPath, child_ofJson]
    cases j.child segment with
    | none => rfl
    | some part => exact ih part

variable {members : List (String × Value)} {first : String} {rest : List String}

theorem field_of_notMem (h : first ∉ members.map Prod.fst) :
    (object members).field (first :: rest) = .error (.undefined first) := by
  have hget : (object members).get? first = none := Members.get?_eq_none_iff.2 h
  rw [field, hget]

theorem field_of_mem (h : first ∈ members.map Prod.fst) :
    (object members).field (first :: rest) =
      .ok (((object members).getPath (first :: rest)).getD .null) := by
  cases hget : Members.get? first members with
  | none => exact absurd h (Members.get?_eq_none_iff.1 hget)
  | some v =>
    have hmember : (object members).get? first = some v := hget
    have hchild : (object members).child first = some v := hget
    rw [field, hmember, getPath, hchild, Option.bind_some]
    exact congrArg Except.ok (reach_eq_getD v rest)

end Value

/-- What a dotted path leads to in a tree is, as a value, what its segments lead to in the value of
the tree. In a context that is an object, only a path with an unknown beginning is an error; any
other one has the value that it leads to, or null where it leads nowhere. -/
theorem walks_agree :
    (∀ (config : Json) (path : String), path ≠ "" →
      (config.at? path).map .ofJson =
        (Value.ofJson config).getPath ((path.toList.splitOn '.').map String.ofList)) ∧
    ∀ (members : List (String × Value)) (first : String) (rest : List String),
      ((Value.object members).field (first :: rest) = .error (.undefined first) ↔
        first ∉ members.map Prod.fst) ∧
      (first ∈ members.map Prod.fst →
        (Value.object members).field (first :: rest) =
          .ok (((Value.object members).getPath (first :: rest)).getD .null)) := by
  refine ⟨fun config path hpath => ?_, fun members first rest => ⟨⟨?_, ?_⟩, ?_⟩⟩
  · have hdot : ".".toList = ['.'] := rfl
    have hsegments := Text.split_eq_splitOn hdot path
    rw [Json.at?, if_neg hpath, Text.dotted, hsegments, Value.getPath_ofJson]
  · intro hfield hmem
    rw [Value.field_of_mem hmem] at hfield
    cases hfield
  · exact Value.field_of_notMem
  · exact Value.field_of_mem

def shopSettings : Json :=
  .object [("0", .string "members"), ("items", .array [.object [("name", .string "pen")], .null])]

/-- An item is found by its number with a sign and zeros in front of it, and a number of its own is
the key of a member. Behind the end of the array is nothing, which is null in the context. -/
theorem shopSettings_walks :
    (Value.ofJson shopSettings).getPath ["items", "+00", "name"] = some (.string "pen") ∧
    (Value.ofJson shopSettings).getPath ["0"] = some (.string "members") ∧
    (Value.ofJson shopSettings).getPath ["items", "2", "name"] = none ∧
    (Value.ofJson shopSettings).field ["items", "2", "name"] = .ok .null ∧
    (Value.ofJson shopSettings).field ["name"] = .error (.undefined "name") := by
  obtain ⟨htrees, hcontexts⟩ := walks_agree
  refine ⟨?_, ?_, ?_, ?_, ?_⟩
  · exact (htrees shopSettings "items.+00.name" (by decide)).symm
  · exact (htrees shopSettings "0" (by decide)).symm
  · exact (htrees shopSettings "items.2.name" (by decide)).symm
  · exact (hcontexts _ "items" ["2", "name"]).2 (by decide)
  · exact (hcontexts _ "name" []).1.2 (by decide)

end RuleGraph

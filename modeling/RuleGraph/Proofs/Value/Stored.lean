import RuleGraph.Proofs.Number.Exact
import RuleGraph.Value.Json
/-!
# Values that are read back from JSON

A value without an infinite or undefined number is read back as an equal one.
-/
namespace RuleGraph.Value

mutual

theorem equal_normalized (v : Value) (h : v.isFinite) : v.normalized.equal v := by
  match v with
  | .null => rfl
  | .bool b => exact beq_self_eq_true b
  | .string s => exact beq_self_eq_true s
  | .number x =>
    have hfinite : x.isFinite := h
    rw [normalized, toJson, Json.ofNumber]
    by_cases hintegral : Number.isIntegral x
    · rw [if_pos hintegral]
      exact Number.ofInt_toInt_beq hintegral
    · rw [if_neg hintegral, if_pos hfinite]
      exact Number.beq_of_unpack_eq rfl hfinite
  | .array items =>
    rw [normalized, toJson, ofJson, equal]
    exact equalItems_ofItems items h
  | .object members =>
    rw [normalized, toJson, ofJson, equal]
    exact equalMembers_ofMembers members h
termination_by structural v

theorem equalItems_ofItems (items : List Value) (h : areFinite items) :
    equalItems (ofItems (itemsToJson items)) items := by
  match items with
  | [] => rfl
  | v :: rest =>
    rw [areFinite, Bool.and_eq_true] at h
    rw [itemsToJson, ofItems, equalItems, Bool.and_eq_true]
    exact ⟨equal_normalized v h.1, equalItems_ofItems rest h.2⟩
termination_by structural items

theorem equalMembers_ofMembers (members : List (String × Value)) (h : membersFinite members) :
    equalMembers (ofMembers (membersToJson members)) members := by
  match members with
  | [] => rfl
  | (k, v) :: rest =>
    rw [membersFinite, Bool.and_eq_true] at h
    rw [membersToJson, ofMembers, equalMembers, beq_self_eq_true, Bool.true_and, Bool.and_eq_true]
    exact ⟨equal_normalized v h.1, equalMembers_ofMembers rest h.2⟩
termination_by structural members

end

end RuleGraph.Value

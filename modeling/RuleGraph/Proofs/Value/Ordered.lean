import RuleGraph.Proofs.Value.Finite
import RuleGraph.Value.Merge
/-!
# Values with their members in order

The members of every object stand in the order of their keys, one for each key. What is taken out of
such a value, put together from such values or read back from JSON is again of this kind, and merged
into nothing it stays as it is.
-/
namespace RuleGraph

namespace Members
variable {α : Type} {key : String} {a : α} {members : List (String × α)}

theorem insert_of_forall_lt (h : ∀ k ∈ members.map Prod.fst, k < key) :
    insert key a members = members ++ [(key, a)] := by
  induction members with
  | nil => rfl
  | cons m rest ih =>
    obtain ⟨k, b⟩ := m
    obtain ⟨hk, hrest⟩ := List.forall_mem_cons.1 h
    have hne : key ≠ k := fun heq => String.lt_irrefl k (heq ▸ hk)
    rw [insert, if_neg hne, if_neg (String.lt_asymm hk), ih hrest, List.cons_append]

theorem get?_eq_none_of_forall_lt (h : ∀ k ∈ members.map Prod.fst, k < key) :
    get? key members = none := by
  induction members with
  | nil => rfl
  | cons m rest ih =>
    obtain ⟨k, b⟩ := m
    obtain ⟨hk, hrest⟩ := List.forall_mem_cons.1 h
    have hne : k ≠ key := fun heq => String.lt_irrefl key (heq ▸ hk)
    rw [get?, if_neg hne, ih hrest]

end Members

/-- The members of every object in a value are sorted by their keys. -/
inductive Value.Ordered : Value → Prop
  | null : Ordered .null
  | bool (b : Bool) : Ordered (.bool b)
  | number (x : Float) : Ordered (.number x)
  | string (s : String) : Ordered (.string s)
  | array {items : List Value} (h : ∀ v ∈ items, v.Ordered) : Ordered (.array items)
  | object {members : List (String × Value)} (hsorted : Members.Sorted members)
    (h : ∀ m ∈ members, m.2.Ordered) : Ordered (.object members)

namespace Value.Ordered
variable {v : Value} {vs : List Value} {ms : List (String × Value)}

theorem items (h : (Value.array vs).Ordered) : ∀ v ∈ vs, v.Ordered := by
  cases h with
  | array h => exact h

theorem members (h : (Value.object ms).Ordered) : ∀ m ∈ ms, m.2.Ordered := by
  cases h with
  | object hsorted h => exact h

theorem hereditary : Hereditary Ordered where
  null := .null
  string := .string
  item h hv := h.items _ hv
  member h hm := h.members _ hm

theorem strings (ss : List String) : (Value.strings ss).Ordered := by
  refine .array fun v hv => ?_
  obtain ⟨s, -, rfl⟩ := List.mem_map.1 hv
  exact .string s

theorem record (h : ∀ m ∈ ms, m.2.Ordered) : (Value.record ms).Ordered :=
  .object (Members.sorted_ofList ms) fun m hm => h m (Members.mem_of_mem_ofList hm)

theorem mergeMembers_of_sorted {earlier later : List (String × Value)}
    (h : Members.Sorted (earlier ++ later)) : mergeMembers earlier later = earlier ++ later := by
  induction later generalizing earlier with
  | nil => rw [mergeMembers, List.append_nil]
  | cons m rest ih =>
    obtain ⟨key, v⟩ := m
    have hlt : ∀ k ∈ earlier.map Prod.fst, k < key := by
      intro k hk
      rw [Members.Sorted, List.map_append, List.pairwise_append] at h
      exact h.2.2 k hk key List.mem_cons_self
    have hnone := Members.get?_eq_none_of_forall_lt hlt
    have happend := List.append_cons earlier (key, v) rest
    rw [mergeMembers, hnone]
    rw [happend] at h ⊢
    rw [Members.insert_of_forall_lt hlt]
    exact ih h

theorem merge_empty (hv : v.Ordered) : Value.empty.merge v = v := by
  cases hv with
  | @object members hsorted h =>
    have hmerged : mergeMembers [] members = [] ++ members := mergeMembers_of_sorted hsorted
    exact congrArg Value.object hmerged
  | _ => rfl

theorem mergeAll_singleton (hv : v.Ordered) : mergeAll [v] = v :=
  hv.merge_empty

end Value.Ordered

namespace Value

theorem normalized_array (items : List Value) :
    (array items).normalized = .array (items.map normalized) := by
  have hitems : ofItems (itemsToJson items) = items.map normalized := by
    induction items with
    | nil => rfl
    | cons v rest ih => rw [itemsToJson, ofItems, ih, List.map_cons, normalized]
  rw [normalized, toJson, ofJson, hitems]

theorem normalized_object (members : List (String × Value)) :
    (object members).normalized = .object (members.map fun m => (m.1, m.2.normalized)) := by
  have hmembers : ofMembers (membersToJson members) =
      members.map fun m => (m.1, m.2.normalized) := by
    induction members with
    | nil => rfl
    | cons m rest ih => rw [membersToJson, ofMembers, ih, List.map_cons, normalized]
  rw [normalized, toJson, ofJson, hmembers]

theorem normalized_number (x : Float) :
    (number x).normalized = .null ∨ ∃ y, (number x).normalized = .number y := by
  rw [normalized, toJson, Json.ofNumber]
  split
  · exact .inr ⟨_, rfl⟩
  · split
    · exact .inr ⟨_, rfl⟩
    · exact .inl rfl

theorem Ordered.normalized {v : Value} (hv : v.Ordered) : v.normalized.Ordered := by
  induction hv with
  | null => exact .null
  | bool b => exact .bool b
  | string s => exact .string s
  | number x =>
    rcases normalized_number x with hx | ⟨y, hx⟩
    · rw [hx]
      exact .null
    · rw [hx]
      exact .number y
  | array h ih =>
    rw [normalized_array]
    exact .array (List.forall_mem_map.2 ih)
  | object hsorted h ih =>
    rw [normalized_object]
    refine .object ?_ (List.forall_mem_map.2 ih)
    rw [Members.Sorted, List.map_map]
    exact hsorted

end Value
end RuleGraph

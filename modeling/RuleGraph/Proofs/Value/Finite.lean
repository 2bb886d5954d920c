import RuleGraph.Proofs.Value.Parts
/-!
# Finite values

A value is finite if its items and members are, so what is taken out of a finite value or put
together from finite ones is finite.
-/
namespace RuleGraph

namespace Members
variable {α : Type} {key : String} {a : α} {members : List (String × α)}

theorem eq_or_mem_of_mem_insert {m : String × α} (h : m ∈ insert key a members) :
    m = (key, a) ∨ m ∈ members := by
  induction members with
  | nil => exact .inl (List.mem_singleton.1 h)
  | cons p rest ih => grind [insert]

theorem mem_of_mem_ofList {pairs : List (String × α)} {m : String × α} (h : m ∈ ofList pairs) :
    m ∈ pairs := by
  suffices ∀ members : List (String × α),
      m ∈ pairs.foldl (fun members p => insert p.1 p.2 members) members →
        m ∈ members ∨ m ∈ pairs by
    exact (this [] h).resolve_left List.not_mem_nil
  clear h
  induction pairs with
  | nil => exact fun _ h => .inl h
  | cons p rest ih =>
    intro members h
    rcases ih _ h with hm | hm
    · rcases eq_or_mem_of_mem_insert hm with rfl | hm
      · exact .inr List.mem_cons_self
      · exact .inl hm
    · exact .inr (List.mem_cons_of_mem p hm)

end Members

namespace Value
variable {v : Value} {vs ws : List Value} {members : List (String × Value)}

theorem areFinite_iff : areFinite vs ↔ ∀ v ∈ vs, v.isFinite := by
  induction vs with
  | nil => simp [areFinite]
  | cons v rest ih => simp [areFinite, ih]

theorem membersFinite_iff : membersFinite members ↔ ∀ m ∈ members, m.2.isFinite := by
  induction members with
  | nil => simp [membersFinite]
  | cons m rest ih => simp [membersFinite, ih]

@[simp] theorem isFinite_array : (array vs).isFinite ↔ ∀ v ∈ vs, v.isFinite := by
  rw [isFinite, areFinite_iff]

@[simp] theorem isFinite_object : (object members).isFinite ↔ ∀ m ∈ members, m.2.isFinite := by
  rw [isFinite, membersFinite_iff]

@[simp] theorem isFinite_number {x : Float} : (number x).isFinite ↔ x.isFinite := by
  rw [isFinite]

@[simp] theorem isFinite_null : null.isFinite := rfl

@[simp] theorem isFinite_bool (b : Bool) : (bool b).isFinite := rfl

@[simp] theorem isFinite_string (s : String) : (string s).isFinite := rfl

@[simp] theorem isFinite_strings (ss : List String) : (strings ss).isFinite := by
  simp [strings]

theorem isFinite_record (h : ∀ m ∈ members, m.2.isFinite) : (record members).isFinite :=
  isFinite_object.2 fun m hm => h m (Members.mem_of_mem_ofList hm)

theorem hereditary_isFinite : Hereditary (·.isFinite) where
  null := isFinite_null
  string := isFinite_string
  item h hv := isFinite_array.1 h _ hv
  member h hm := isFinite_object.1 h _ hm

end Value

/-- A scope in which everything that an expression sees is finite. -/
structure Scope.IsFinite (s : Scope) : Prop where
  root : s.root.isFinite
  subject : ∀ v, s.subject? = some v → v.isFinite
  element : ∀ v, s.element? = some v → v.isFinite

namespace Scope.IsFinite
variable {s : Scope} {v : Value}

theorem shows (hs : s.IsFinite) : s.Shows (·.isFinite) :=
  ⟨hs.root, hs.subject, hs.element⟩

theorem withElement (hs : s.IsFinite) (hv : v.isFinite) : (s.withElement v).IsFinite :=
  have h := hs.shows.withElement hv
  ⟨h.root, h.subject, h.element⟩

end Scope.IsFinite
end RuleGraph

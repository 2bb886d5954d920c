import RuleGraph.Decision.Json
import RuleGraph.Proofs.Value.Finite
/-!
# Records and variants that are read back

What was written as a field of a record is found under its name, and what was written as the content
of a variant under its tag. Both are less deep than the whole.
-/
namespace RuleGraph

namespace Members
variable {α : Type} {key name : String} {a : α} {members : List (String × α)}

theorem lookup_cons_eq (k : String) (b : α) (members : List (String × α)) :
    ((k, b) :: members).lookup name = if name = k then some b else members.lookup name := by
  rw [List.lookup_cons]
  by_cases h : name = k
  · simp [h]
  · simp [h, beq_eq_false_iff_ne.2 h]

theorem lookup_insert : (insert key a members).lookup name =
    if name = key then some a else members.lookup name := by
  induction members with
  | nil => rw [insert, lookup_cons_eq]
  | cons m rest ih =>
    obtain ⟨k, b⟩ := m
    rw [insert]
    split
    · next h =>
      subst h
      rw [lookup_cons_eq, lookup_cons_eq]
      split <;> rfl
    · next hne =>
      split
      · rw [lookup_cons_eq]
      · rw [lookup_cons_eq, ih, lookup_cons_eq]
        by_cases hk : name = k
        · have hname : name ≠ key := fun h => hne (h.symm.trans hk)
          rw [if_pos hk, if_neg hname, if_pos hk]
        · rw [if_neg hk, if_neg hk]

theorem lookup_eq_none (h : name ∉ members.map Prod.fst) : members.lookup name = none := by
  refine List.lookup_eq_none_iff.2 fun m hm => ?_
  exact bne_iff_ne.2 fun heq => h (heq ▸ List.mem_map_of_mem hm)

theorem lookup_eq_some_of_mem (hnodup : (members.map Prod.fst).Nodup) {m : String × α}
    (h : m ∈ members) : members.lookup m.1 = some m.2 := by
  induction members with
  | nil => cases h
  | cons m' rest ih =>
    obtain ⟨hfirst, hrest⟩ := List.nodup_cons.1 hnodup
    rcases List.mem_cons.1 h with rfl | h
    · exact List.lookup_cons_self
    · have hne : m.1 ≠ m'.1 := fun heq => hfirst (heq ▸ List.mem_map_of_mem h)
      rw [lookup_cons_eq, if_neg hne, ih hrest h]

theorem lookup_ofList (h : (members.map Prod.fst).Nodup) :
    (ofList members).lookup name = members.lookup name := by
  -- What was found before counts for the keys that do not come again.
  suffices ∀ found : List (String × α),
      (members.foldl (fun found m => insert m.1 m.2 found) found).lookup name =
        (members.lookup name).or (found.lookup name) by
    have hnone := this []
    rw [List.lookup_nil, Option.or_none] at hnone
    exact hnone
  induction members with
  | nil => exact fun found => rfl
  | cons m rest ih =>
    obtain ⟨k, b⟩ := m
    obtain ⟨hk, hrest⟩ := List.nodup_cons.1 h
    intro found
    rw [List.foldl_cons, ih hrest, lookup_insert, lookup_cons_eq]
    by_cases hname : name = k
    · subst hname
      rw [lookup_eq_none hk, if_pos rfl, if_pos rfl]
      rfl
    · rw [if_neg hname, if_neg hname]

end Members

theorem Form.find?_named {names : List String} {key : String} (h : key ∈ names) :
    (names.map Field.named).find? (·.isSpelled key) = some (.named key) := by
  induction names with
  | nil => cases h
  | cons name rest ih =>
    by_cases hname : name = key
    · simp [Field.isSpelled, Field.named, hname]
    · have hrest := ih ((List.mem_cons.1 h).resolve_left (Ne.symm hname))
      simpa [Field.isSpelled, Field.named, hname] using hrest

theorem Form.select_named {α : Type} {names : List String} {members : List (String × α)}
    (hnames : ∀ m ∈ members, m.1 ∈ names) (hnodup : (members.map Prod.fst).Nodup) :
    Form.select (names.map .named) members = some members := by
  induction members with
  | nil => rfl
  | cons m rest ih =>
    obtain ⟨key, a⟩ := m
    obtain ⟨hkey, hrest⟩ := List.nodup_cons.1 hnodup
    have hfind := find?_named (hnames (key, a) List.mem_cons_self)
    rw [Form.select, ih (fun m hm => hnames m (List.mem_cons_of_mem _ hm)) hrest]
    simp only [Option.bind_eq_bind, Option.bind_some, hfind, Field.named,
      Members.lookup_eq_none hkey]
    rfl

namespace Json

/-- One step of a decoder and what it makes of the result. -/
theorem step {α β : Type} {x : Option α} {f : α → Option β} {a : α} {b : β} (hx : x = some a)
    (hf : f a = some b) : (x >>= f) = some b := by
  rw [hx]
  exact hf

@[simp] theorem depth_variant (tag : String) (content : Json) :
    (variant tag content).depth = content.depth + 1 := by
  simp [variant, depth, membersDepth]

theorem depth_le_of_mem {members : List (String × Json)} {m : String × Json} (h : m ∈ members) :
    m.2.depth ≤ membersDepth members := by
  induction members with
  | nil => cases h
  | cons m' rest ih =>
    rw [membersDepth]
    rcases List.mem_cons.1 h with rfl | h
    · exact Nat.le_max_left _ _
    · exact Nat.le_trans (ih h) (Nat.le_max_right _ _)

theorem fields?_record {names : List String} {members : List (String × Json)}
    (hnames : members.map Prod.fst = names) (hnodup : names.Nodup) :
    ∃ fields, (record members).fields? names = some fields ∧
      ∀ name, fields.lookup name = members.lookup name := by
  subst hnames
  refine ⟨Members.ofList members, ?_, fun name => Members.lookup_ofList hnodup⟩
  have hsorted := Members.sorted_ofList members
  refine Form.select_named (fun m hm => ?_) ?_
  · exact List.mem_map_of_mem (Members.mem_of_mem_ofList hm)
  · have hne {a b : String} (hlt : a < b) : a ≠ b := fun heq => String.lt_irrefl b (heq ▸ hlt)
    exact List.Pairwise.imp hne hsorted

theorem depth_lt_record {members : List (String × Json)} (hnodup : (members.map Prod.fst).Nodup)
    {m : String × Json} (hm : m ∈ members) : m.2.depth < (record members).depth := by
  have hlookup := Members.lookup_eq_some_of_mem hnodup hm
  rw [← Members.lookup_ofList hnodup, List.lookup_eq_some_iff] at hlookup
  obtain ⟨before, after, heq, -⟩ := hlookup
  have hle := depth_le_of_mem (show m ∈ Members.ofList members by simp [heq])
  rw [record, depth]
  exact Nat.lt_succ_of_le hle

theorem exists_of_variant {tag : String} {content : Json} {fuel : Nat}
    (h : (variant tag content).depth ≤ fuel) : ∃ k, fuel = k + 1 ∧ content.depth ≤ k := by
  rw [depth_variant] at h
  exact ⟨fuel - 1, by omega, by omega⟩

theorem exists_of_fields {tag : String} {members : List (String × Json)} {fuel : Nat}
    (h : (variant tag (record members)).depth ≤ fuel) (names : List String)
    (hnames : members.map Prod.fst = names) (hnodup : names.Nodup) : ∃ k fields, fuel = k + 1 ∧
      (record members).fields? names = some fields ∧
      (∀ name, fields.lookup name = members.lookup name) ∧ ∀ m ∈ members, m.2.depth ≤ k := by
  obtain ⟨k, rfl, hdepth⟩ := exists_of_variant h
  obtain ⟨fields, hfields, hlookup⟩ := fields?_record hnames hnodup
  refine ⟨k, fields, rfl, hfields, hlookup, fun m hm => ?_⟩
  have hlt := depth_lt_record (hnames ▸ hnodup) hm
  omega

end Json
end RuleGraph

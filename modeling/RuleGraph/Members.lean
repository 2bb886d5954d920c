/-!
# Members by key

The members of an object: pairs of a key and a value, one for each key, in the order of the keys.
Keys are ordered by their code points.
-/
namespace RuleGraph.Members
variable {α β : Type}

def Sorted (members : List (String × α)) : Prop :=
  (members.map Prod.fst).Pairwise (· < ·)

def get? (key : String) : List (String × α) → Option α
  | [] => none
  | (k, a) :: rest => if k = key then some a else get? key rest

def contains (key : String) (members : List (String × α)) : Bool :=
  (get? key members).isSome

def insert (key : String) (a : α) : List (String × α) → List (String × α)
  | [] => [(key, a)]
  | (k, b) :: rest =>
    if key = k then (key, a) :: rest
    else if key < k then (key, a) :: (k, b) :: rest
    else (k, b) :: insert key a rest

def erase (key : String) : List (String × α) → List (String × α)
  | [] => []
  | (k, b) :: rest => if k = key then rest else (k, b) :: erase key rest

/-- The members of a list of pairs; a later pair replaces an earlier one of its key. -/
def ofList (pairs : List (String × α)) : List (String × α) :=
  pairs.foldl (fun members (k, a) => insert k a members) []

@[simp] theorem get?_insert_self (key : String) (a : α) (members : List (String × α)) :
    get? key (insert key a members) = some a := by
  induction members with
  | nil => simp [insert, get?]
  | cons m rest ih => grind [insert, get?]

theorem get?_insert_of_ne {key other : String} (h : other ≠ key) (a : α)
    (members : List (String × α)) : get? other (insert key a members) = get? other members := by
  induction members with
  | nil => simp [insert, get?, h.symm]
  | cons m rest ih => grind [insert, get?]

theorem mem_keys_insert {key k : String} {a : α} {members : List (String × α)} :
    k ∈ (insert key a members).map Prod.fst ↔ k = key ∨ k ∈ members.map Prod.fst := by
  induction members with
  | nil => simp [insert]
  | cons m rest ih =>
    obtain ⟨l, b⟩ := m
    rw [insert]
    split
    · next h => simp [h]
    · split
      · simp
      · rw [List.map_cons, List.mem_cons, ih, List.map_cons, List.mem_cons]
        exact or_left_comm

theorem Sorted.insert {members : List (String × α)} (h : Sorted members) (key : String) (a : α) :
    Sorted (insert key a members) := by
  induction members with
  | nil => simp [Members.insert, Sorted]
  | cons m rest ih =>
    obtain ⟨l, b⟩ := m
    obtain ⟨hl, hrest⟩ := List.pairwise_cons.1 h
    rw [Members.insert]
    split
    · next heq => exact List.pairwise_cons.2 ⟨heq ▸ hl, hrest⟩
    · next hne =>
      split
      · next hlt =>
        refine List.pairwise_cons.2 ⟨fun k hk => ?_, h⟩
        rcases List.mem_cons.1 hk with rfl | hk
        · exact hlt
        · exact String.lt_trans hlt (hl k hk)
      · next hnlt =>
        refine List.pairwise_cons.2 ⟨fun k hk => ?_, ih hrest⟩
        rcases mem_keys_insert.1 hk with rfl | hk
        · exact Std.lt_of_le_of_ne (Std.not_lt.1 hnlt) (Ne.symm hne)
        · exact hl k hk

theorem sorted_ofList (pairs : List (String × α)) : Sorted (ofList pairs) := by
  suffices ∀ members : List (String × α), Sorted members →
      Sorted (pairs.foldl (fun members (k, a) => Members.insert k a members) members) from
    this [] List.Pairwise.nil
  induction pairs with
  | nil => exact fun _ h => h
  | cons p rest ih => exact fun _ h => ih _ (h.insert p.1 p.2)

end RuleGraph.Members

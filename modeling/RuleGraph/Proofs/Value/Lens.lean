import RuleGraph.Value.Path
/-!
# Storing under a path

What is stored under a path is found under it, and of two values the second one stays. Where a path
leads through the members of objects is not changed by storing under a path that branches off,
whatever is replaced by objects on the way to that one.
-/
namespace RuleGraph

theorem Members.insert_insert {α : Type} (key : String) (a b : α) (members : List (String × α)) :
    insert key b (insert key a members) = insert key b members := by
  induction members with
  | nil => simp [insert]
  | cons m rest ih => grind [insert]

namespace Value
variable {key other : String} {path : List String}

/-- Where a path leads through the members of objects only. -/
def memberAt : List String → Value → Option Value
  | [], v => some v
  | key :: rest, v => (v.get? key).bind (memberAt rest)

theorem memberAt_empty (h : path ≠ []) : empty.memberAt path = none := by
  cases path with
  | nil => exact absurd rfl h
  | cons key rest => rfl

def setMember (key : String) (v w : Value) : Value :=
  .object (Members.insert key w v.members)

theorem setPath_cons (key : String) (rest : List String) (v x : Value) :
    v.setPath (key :: rest) x =
      v.setMember key (((v.get? key).getD empty).setPath rest x) := rfl

@[simp] theorem get?_setMember_self (key : String) (v w : Value) :
    (v.setMember key w).get? key = some w :=
  Members.get?_insert_self key w v.members

theorem get?_setMember_of_ne (h : other ≠ key) (v w : Value) :
    (v.setMember key w).get? other = v.get? other :=
  Members.get?_insert_of_ne h w v.members

@[simp] theorem child_setMember_self (key : String) (v w : Value) :
    (v.setMember key w).child key = some w :=
  get?_setMember_self key v w

@[simp] theorem setMember_setMember (key : String) (v w x : Value) :
    (v.setMember key w).setMember key x = v.setMember key x :=
  congrArg object (Members.insert_insert key w x v.members)

theorem getPath_setPath (path : List String) (v x : Value) :
    (v.setPath path x).getPath path = some x := by
  induction path generalizing v with
  | nil => rfl
  | cons key rest ih => rw [setPath_cons, getPath, child_setMember_self, Option.bind_some, ih]

theorem setPath_setPath (path : List String) (v x y : Value) :
    (v.setPath path x).setPath path y = v.setPath path y := by
  induction path generalizing v with
  | nil => rfl
  | cons key rest ih =>
    rw [setPath_cons, setPath_cons, setPath_cons, get?_setMember_self, Option.getD_some, ih,
      setMember_setMember]

/-- Paths that branch off from each other have a common beginning, so the induction follows both of
them. -/
theorem memberAt_setPath {others : List String} (hpath : ¬path <+: others)
    (hothers : ¬others <+: path) (v x : Value) :
    (v.setPath path x).memberAt others = v.memberAt others := by
  induction path generalizing others v with
  | nil => exact absurd List.nil_prefix hpath
  | cons key rest ih =>
    cases others with
    | nil => exact absurd List.nil_prefix hothers
    | cons other others =>
      rw [setPath_cons, memberAt, memberAt]
      by_cases hkey : other = key
      · subst hkey
        rw [List.cons_prefix_cons, and_iff_right rfl] at hpath hothers
        rw [get?_setMember_self, Option.bind_some, ih hpath hothers]
        cases v.get? other with
        | some inner => rfl
        | none =>
          -- The object that was made for the path does not lead anywhere else.
          refine memberAt_empty ?_
          rintro rfl
          exact hothers List.nil_prefix
      · rw [get?_setMember_of_ne hkey]

/-- A value that is stored under a path is found there, a later one replaces it, and the members
under all paths that branch off stay as they are. -/
theorem setPath_lens (v x y : Value) (path : List String) :
    (v.setPath path x).getPath path = some x ∧
    (v.setPath path x).setPath path y = v.setPath path y ∧
    ∀ other, ¬path <+: other → ¬other <+: path →
      (v.setPath path x).memberAt other = v.memberAt other :=
  ⟨getPath_setPath path v x, setPath_setPath path v x y,
    fun _ hpath hother => memberAt_setPath hpath hother v x⟩

/-- An order whose items are written as an array. -/
def listedOrder : Value :=
  .object [("customer", .object [("name", .string "Ada")]), ("items", .array [.string "pen"])]

/-- An item that is stored by its number makes an object of the array. The customer stays. -/
theorem listedOrder_lens :
    listedOrder.getPath ["items", "0"] = some (.string "pen") ∧
    (listedOrder.setPath ["items", "0"] (.string "ink")).getPath ["items", "0"] =
      some (.string "ink") ∧
    (listedOrder.setPath ["items", "0"] (.string "ink")).memberAt ["items"] =
      some (.object [("0", .string "ink")]) ∧
    (listedOrder.setPath ["items", "0"] (.string "ink")).memberAt ["customer", "name"] =
      some (.string "Ada") := by
  obtain ⟨hfound, -, hothers⟩ := setPath_lens listedOrder (.string "ink") .null ["items", "0"]
  refine ⟨rfl, hfound, rfl, ?_⟩
  rw [hothers ["customer", "name"] (by decide) (by decide)]
  rfl

end Value
end RuleGraph

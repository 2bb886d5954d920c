import RuleGraph.Expr.Eval
import RuleGraph.Proofs.Results
import RuleGraph.Proofs.Value.Lens
/-!
# Dotted and bracketed access

A dotted path is followed as a whole and given up at the first segment that leads nowhere. Keys in
brackets are applied one after another, and what is missing goes on as null. Only a dotted segment
can be the number of an item.
-/
namespace RuleGraph

namespace Value
variable {segment : String} {path : List String}

theorem child_eq_get? (h : indexOf segment = none) (v : Value) :
    v.child segment = v.get? segment := by
  cases v with
  | array items =>
    rw [child, h]
    rfl
  | _ => rfl

theorem getPath_eq_memberAt (h : ∀ segment ∈ path, indexOf segment = none) (v : Value) :
    v.getPath path = v.memberAt path := by
  induction path generalizing v with
  | nil => rfl
  | cons key rest ih =>
    rw [List.forall_mem_cons] at h
    rw [getPath, memberAt, child_eq_get? h.1]
    congr 1
    funext w
    exact ih h.2 w

theorem getPath_append (before after : List String) (v : Value) :
    v.getPath (before ++ after) = (v.getPath before).bind (getPath after) := by
  induction before generalizing v with
  | nil => rfl
  | cons segment rest ih =>
    rw [List.cons_append, getPath, getPath, Option.bind_assoc]
    congr 1
    funext w
    exact ih w

theorem memberAt_append (before after : List String) (v : Value) :
    v.memberAt (before ++ after) = (v.memberAt before).bind (memberAt after) := by
  induction before generalizing v with
  | nil => rfl
  | cons key rest ih =>
    rw [List.cons_append, memberAt, memberAt, Option.bind_assoc]
    congr 1
    funext w
    exact ih w

theorem memberAt_setPath_self (path : List String) (v x : Value) :
    (v.setPath path x).memberAt path = some x := by
  induction path generalizing v with
  | nil => rfl
  | cons key rest ih => rw [setPath_cons, memberAt, get?_setMember_self, Option.bind_some, ih]

/-- Null where a path through members leads nowhere. -/
def memberOrNull (path : List String) (v : Value) : Value :=
  (v.memberAt path).getD .null

theorem memberOrNull_null (path : List String) : memberOrNull path .null = .null := by
  cases path <;> rfl

theorem memberOrNull_cons (key : String) (rest : List String) (v : Value) :
    v.memberOrNull (key :: rest) = (Operation.index v (.string key)).memberOrNull rest := by
  have hindex : Operation.index v (.string key) = (v.get? key).getD .null := by
    cases v <;> rfl
  rw [hindex, memberOrNull, memberAt]
  cases v.get? key with
  | none => exact (memberOrNull_null rest).symm
  | some w => rfl

def withItem (before : List String) (n : Nat) (after : List String) : Value :=
  empty.setPath before
    (.array (List.replicate n .null ++ [empty.setPath after (.bool true)]))

theorem getPath_withItem {segment : String} {n : Nat} (h : indexOf segment = some n)
    (before after : List String) :
    (withItem before n after).getPath (before ++ segment :: after) = some (.bool true) := by
  rw [withItem, getPath_append, getPath_setPath, Option.bind_some, getPath,
    child, h, Option.bind_some, List.getElem?_append_right (by simp)]
  simp [getPath_setPath]

theorem memberAt_withItem (segment : String) (n : Nat) (before after : List String) :
    (withItem before n after).memberAt (before ++ segment :: after) = none := by
  rw [withItem, memberAt_append, memberAt_setPath_self]
  rfl

end Value

namespace Expr

/-- The members of an expression under keys in brackets: `e["a"]["b"]`. -/
def bracketed (e : Expr) (keys : List String) : Expr :=
  keys.foldl (fun e key => .index e (.string key)) e

theorem eval_bracketed (keys : List String) (e : Expr) (s : Scope) :
    (e.bracketed keys).eval s = (e.eval s).map (Value.memberOrNull keys) := by
  induction keys generalizing e with
  | nil =>
    change e.eval s = _
    cases e.eval s <;> rfl
  | cons key rest ih =>
    have hstep : (index e (.string key)).eval s =
        (e.eval s).map fun v => Operation.index v (.string key) := by
      rw [eval]
      cases e.eval s <;> rfl
    change ((index e (.string key)).bracketed rest).eval s = _
    rw [ih, hstep]
    cases e.eval s with
    | error err => rfl
    | ok v => exact congrArg Except.ok (Value.memberOrNull_cons key rest v).symm

theorem eval_field_cons (first : String) (rest : List String) (s : Scope) :
    (field (first :: rest)).eval s =
      ((field [first]).eval s).map fun v => (v.getPath rest).getD .null := by
  simp only [eval, Value.field, Value.reach_eq_getD]
  cases s.root.get? first <;> rfl

theorem eval_field_ofRoot (first : String) (v : Value) :
    (field [first]).eval (.ofRoot (.object [(first, v)])) = .ok v := by
  have hmember : (Value.object [(first, v)]).get? first = some v := if_pos rfl
  rw [eval, Scope.ofRoot, Value.field, hmember]
  rfl

/-- Both forms have the same value or failure in every scope, unless a segment after the first one
can be the number of an item. -/
theorem dotted_eq_bracketed_iff (first : String) (rest : List String) :
    (∀ s, (field (first :: rest)).eval s = ((field [first]).bracketed rest).eval s) ↔
      ∀ segment ∈ rest, indexOf segment = none := by
  constructor
  · intro hsame segment hsegment
    cases hindex : indexOf segment with
    | none => rfl
    | some n =>
      obtain ⟨before, after, rfl⟩ := List.append_of_mem hsegment
      have heq := hsame (.ofRoot (.object [(first, .withItem before n after)]))
      rw [eval_field_cons, eval_bracketed, eval_field_ofRoot, map_ok, map_ok,
        Value.getPath_withItem hindex, Value.memberOrNull, Value.memberAt_withItem] at heq
      cases heq
  · intro hnames s
    rw [eval_field_cons, eval_bracketed]
    congr 1
    funext v
    rw [Value.getPath_eq_memberAt hnames, Value.memberOrNull]

end Expr
end RuleGraph

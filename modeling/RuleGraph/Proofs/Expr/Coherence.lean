import RuleGraph.Proofs.Expr.Evaluation
/-!
# Closures over the same elements

The functions that test elements run the same test, each with a loop of its own that goes on as far
as the function needs to. Where all elements can be tested, each of them says something about those
that `filter` keeps. Where some cannot, two functions that go equally far fail together.
-/
namespace RuleGraph

/-- The items of an array; null has none, and another value is no collection. -/
def Value.elements? : Value → Option (List Value)
  | .array items => some items
  | .null => some []
  | _ => none

namespace Expr

/-- The elements of the value of an expression. -/
def elements? (collection : Expr) (s : Scope) : Option (List Value) :=
  (collection.eval s).toOption.bind Value.elements?

/-- What the body of a closure says of an element, if that is a truth value. -/
def verdict (body : Expr) (s : Scope) (v : Value) : Option Bool :=
  match body.eval (s.withElement v) with
  | .ok (.bool b) => some b
  | _ => none

def passes (body : Expr) (s : Scope) (v : Value) : Bool :=
  body.verdict s v == some true

theorem verdict_not (body : Expr) (s : Scope) (v : Value) :
    (unary .not body).verdict s v = (body.verdict s v).map not := by
  unfold verdict
  rw [eval]
  cases body.eval (s.withElement v) with
  | error e => rfl
  | ok w => cases w <;> rfl

end Expr

namespace Builtin

theorem toOption_elements (f : Builtin) (v : Value) : (f.elements v).toOption = v.elements? := by
  cases v <;> rfl

theorem toOption_truth (f : Builtin) (body : Expr) (s : Scope) :
    (fun v => (do f.truth (← body.eval (s.withElement v))).toOption) = body.verdict s := by
  funext v
  unfold Expr.verdict
  cases body.eval (s.withElement v) with
  | error e => rfl
  | ok w => cases w <;> rfl

theorem toOption_keep {test : Value → Except EvalError Bool} {verdict : Value → Option Bool}
    (h : (fun v => (test v).toOption) = verdict) (xs : List Value) :
    (keep test xs).toOption =
      (xs.mapM verdict).map fun _ => xs.filter fun v => verdict v == Option.some true := by
  induction xs with
  | nil => rfl
  | cons x rest ih =>
    have hx : verdict x = (test x).toOption := (congrFun h x).symm
    rw [keep, List.mapM_cons, List.filter_cons, hx]
    cases test x with
    | error e => rfl
    | ok b =>
      rw [ok_bind, toOption_bind, ih]
      cases rest.mapM verdict with
      | none => rfl
      | some bs => cases b <;> rfl

end Builtin

namespace Expr

/-- The elements to be kept, if all elements can be tested. -/
def kept (collection body : Expr) (s : Scope) : Option (List Value) :=
  (collection.elements? s).bind fun xs =>
    (xs.mapM (body.verdict s)).map fun _ => xs.filter (body.passes s)

/-- Whether there is an element to be kept, if all elements before it can be tested. -/
def finds (collection body : Expr) (s : Scope) : Option Bool :=
  (collection.elements? s).bind fun xs => xs.anyM (body.verdict s)

section
variable (collection body : Expr) (s : Scope)

theorem toOption_eval_closure {f : Builtin} (hf : f.isClosure) {α : Type}
    {answer : List Value → Option α} {result : α → Value}
    (h : ∀ xs, (f.applyClosure (fun v => body.eval (s.withElement v)) xs).toOption =
      (answer xs).map result) :
    ((call f [collection, body]).eval s).toOption =
      ((collection.elements? s).bind answer).map result := by
  rw [eval_call_of_isClosure hf, elements?, toOption_bind, Option.bind_assoc, Option.map_bind]
  congr 1
  funext v
  rw [toOption_bind, Builtin.toOption_elements, Function.comp_apply, Option.map_bind]
  congr 1
  funext xs
  exact h xs

theorem toOption_filter :
    ((call .filter [collection, body]).eval s).toOption = (collection.kept body s).map .array := by
  refine toOption_eval_closure collection body s rfl fun xs => ?_
  rw [Builtin.applyClosure, toOption_bind,
    Builtin.toOption_keep (Builtin.toOption_truth .filter body s)]
  cases xs.mapM (body.verdict s) <;> rfl

theorem toOption_count :
    ((call .count [collection, body]).eval s).toOption =
      (collection.kept body s).map fun kept => .number (Float.ofNat kept.length) := by
  refine toOption_eval_closure collection body s rfl fun xs => ?_
  rw [Builtin.applyClosure_count, toOption_bind,
    Builtin.toOption_keep (Builtin.toOption_truth .count body s)]
  cases xs.mapM (body.verdict s) <;> rfl

theorem toOption_some :
    ((call .some [collection, body]).eval s).toOption = (collection.finds body s).map .bool := by
  refine toOption_eval_closure collection body s rfl fun xs => ?_
  rw [Builtin.applyClosure, toOption_bind, toOption_anyM, Builtin.toOption_truth .some body s]
  cases xs.anyM (body.verdict s) <;> rfl

theorem toOption_none :
    ((call .none [collection, body]).eval s).toOption =
      (collection.finds body s).map fun found => .bool !found := by
  refine toOption_eval_closure collection body s rfl fun xs => ?_
  rw [Builtin.applyClosure_none, toOption_bind, toOption_anyM, Builtin.toOption_truth .none body s]
  cases xs.anyM (body.verdict s) <;> rfl

/-- All elements pass unless one is found that does not. -/
theorem toOption_all :
    ((call .all [collection, body]).eval s).toOption =
      (collection.finds (unary .not body) s).map fun found => .bool !found := by
  refine toOption_eval_closure collection body s rfl fun xs => ?_
  have hverdict : (unary .not body).verdict s = fun v => not <$> body.verdict s v :=
    funext fun v => verdict_not body s v
  rw [Builtin.applyClosure, toOption_bind, toOption_allM, Builtin.toOption_truth .all body s,
    List.allM_eq_not_anyM_not, hverdict]
  cases xs.anyM fun v => not <$> body.verdict s v <;> rfl

end

section
variable {collection body : Expr} {s : Scope} {xs k : List Value}

theorem verdict_of_mapM {bs : List Bool} (h : xs.mapM (body.verdict s) = some bs) :
    ∀ x ∈ xs, body.verdict s x = some (body.passes s x) := by
  induction xs generalizing bs with
  | nil => exact List.forall_mem_nil _
  | cons x rest ih =>
    rw [List.mapM_cons] at h
    obtain ⟨b, hx, h⟩ := Option.bind_eq_some_iff.1 h
    obtain ⟨others, hrest, -⟩ := Option.bind_eq_some_iff.1 h
    refine List.forall_mem_cons.2 ⟨?_, ih hrest⟩
    rw [passes, hx]
    cases b <;> rfl

theorem anyM_eq_some_any {test : Value → Option Bool} {p : Value → Bool}
    (h : ∀ x ∈ xs, test x = some (p x)) : xs.anyM test = some (xs.any p) := by
  induction xs with
  | nil => rfl
  | cons x rest ih =>
    rw [List.forall_mem_cons] at h
    rw [List.anyM_cons, List.any_cons, h.1]
    cases p x with
    | true => rfl
    | false => exact ih h.2

theorem kept_eq_some (h : collection.kept body s = some k) :
    ∃ xs, collection.elements? s = some xs ∧ k = xs.filter (body.passes s) ∧
      ∀ x ∈ xs, body.verdict s x = some (body.passes s x) := by
  obtain ⟨xs, hxs, h⟩ := Option.bind_eq_some_iff.1 h
  obtain ⟨bs, hbs, rfl⟩ := Option.map_eq_some_iff.1 h
  exact ⟨xs, hxs, rfl, verdict_of_mapM hbs⟩

theorem finds_eq_some (hxs : collection.elements? s = some xs)
    (h : ∀ x ∈ xs, body.verdict s x = some (body.passes s x)) :
    collection.finds body s = some !(xs.filter (body.passes s)).isEmpty := by
  rw [finds, hxs, Option.bind_some, anyM_eq_some_any h]
  congr 1
  rw [Bool.eq_iff_iff]
  simp

theorem finds_not_eq_some (hxs : collection.elements? s = some xs)
    (h : ∀ x ∈ xs, body.verdict s x = some (body.passes s x)) :
    collection.finds (unary .not body) s =
      some !((xs.filter (body.passes s)).length == xs.length) := by
  have hnot (x : Value) (hx : x ∈ xs) :
      (unary .not body).verdict s x = some !body.passes s x := by
    rw [verdict_not, h x hx, Option.map_some]
  rw [finds, hxs, Option.bind_some, anyM_eq_some_any hnot]
  congr 1
  rw [Bool.eq_iff_iff]
  simp

end

/-- Two results are truth values, the second one what a function makes of the first, or both are
failures. -/
def Correspond (g : Bool → Bool) (x y : Except EvalError Value) : Prop :=
  (∃ b, x = .ok (.bool b) ∧ y = .ok (.bool (g b))) ∨ (∃ e, x = .error e) ∧ ∃ e, y = .error e

theorem correspond_of_toOption {g h : Bool → Bool} {x y : Except EvalError Value}
    {found : Option Bool} (hx : x.toOption = found.map fun b => .bool (h b))
    (hy : y.toOption = found.map fun b => .bool (g (h b))) : Correspond g x y := by
  cases found with
  | none => exact .inr ⟨toOption_eq_none.1 hx, toOption_eq_none.1 hy⟩
  | some b => exact .inl ⟨h b, toOption_eq_some.1 hx, toOption_eq_some.1 hy⟩

/-- `filter` and `count` fail together. Where they do not, all functions say what they say of the
elements that `filter` keeps. In any case `none` is the opposite of `some`, and `all` says of a body
what `none` says of its negation. -/
theorem closures_cohere (collection body : Expr) (s : Scope) :
    ((∃ e, (call .filter [collection, body]).eval s = .error e) ↔
      ∃ e, (call .count [collection, body]).eval s = .error e) ∧
    (∀ v, (call .filter [collection, body]).eval s = .ok v →
      ∃ xs kept, collection.elements? s = some xs ∧ v = .array kept ∧ kept.Sublist xs ∧
        (call .count [collection, body]).eval s = .ok (.number (Float.ofNat kept.length)) ∧
        (call .some [collection, body]).eval s = .ok (.bool !kept.isEmpty) ∧
        (call .none [collection, body]).eval s = .ok (.bool kept.isEmpty) ∧
        (call .all [collection, body]).eval s = .ok (.bool (kept.length == xs.length))) ∧
    Correspond not ((call .some [collection, body]).eval s)
      ((call .none [collection, body]).eval s) ∧
    Correspond id ((call .all [collection, body]).eval s)
      ((call .none [collection, unary .not body]).eval s) := by
  refine ⟨?failures, ?kept, ?opposites, ?negated⟩
  case failures =>
    rw [← toOption_eq_none, ← toOption_eq_none, toOption_filter, toOption_count,
      Option.map_eq_none_iff, Option.map_eq_none_iff]
  case kept =>
    intro v hv
    rw [← toOption_eq_some, toOption_filter, Option.map_eq_some_iff] at hv
    obtain ⟨k, hk, rfl⟩ := hv
    obtain ⟨xs, hxs, hfilter, htested⟩ := kept_eq_some hk
    have hfinds := finds_eq_some hxs htested
    have hfindsNot := finds_not_eq_some hxs htested
    rw [← hfilter] at hfinds hfindsNot
    refine ⟨xs, k, hxs, rfl, ?_, ?_, ?_, ?_, ?_⟩
    · rw [hfilter]
      exact List.filter_sublist
    · rw [← toOption_eq_some, toOption_count, hk, Option.map_some]
    · rw [← toOption_eq_some, toOption_some, hfinds, Option.map_some]
    · rw [← toOption_eq_some, toOption_none, hfinds, Option.map_some, Bool.not_not]
    · rw [← toOption_eq_some, toOption_all, hfindsNot, Option.map_some, Bool.not_not]
  case opposites =>
    exact correspond_of_toOption (h := id) (toOption_some collection body s)
      (toOption_none collection body s)
  case negated =>
    exact correspond_of_toOption (toOption_all collection body s)
      (toOption_none collection (unary .not body) s)

/-- `# == "gold"` -/
def isGold : Expr :=
  .binary .element .eq (.literal (.string "gold"))

def tiers : Scope :=
  .ofRoot (.object [("tiers", .array [.string "gold", .string "base", .string "gold"])])

theorem closures_cohere_tiers :
    (call .filter [.field ["tiers"], isGold]).eval tiers =
        .ok (.array [.string "gold", .string "gold"]) ∧
      (call .count [.field ["tiers"], isGold]).eval tiers = .ok (.number (Float.ofNat 2)) ∧
      (call .some [.field ["tiers"], isGold]).eval tiers = .ok (.bool true) ∧
      (call .all [.field ["tiers"], isGold]).eval tiers = .ok (.bool false) := by
  have hfilter : (call .filter [.field ["tiers"], isGold]).eval tiers =
      .ok (.array [.string "gold", .string "gold"]) := by
    rfl
  obtain ⟨-, hkept, -⟩ := closures_cohere (.field ["tiers"]) isGold tiers
  obtain ⟨xs, kept, hxs, heq, -, hcount, hsome, -, hall⟩ := hkept _ hfilter
  cases heq
  cases hxs
  exact ⟨hfilter, hcount, hsome, hall⟩

end Expr
end RuleGraph

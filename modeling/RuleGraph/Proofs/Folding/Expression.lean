import Mathlib.Tactic.ByContra
import RuleGraph.Proofs.Folding.Overlooked
/-!
# Folded expressions

Where an evaluation overlooks no check, the folded expression gives what the written one gives: the
same value or the same failure. So values are kept, and so are references that are undefined, which
`??` and the fields of tables take for null.
-/
namespace RuleGraph.Expr

/-- The result of an operator on numbers that folding gives a value for is finite. -/
def FoldsFinitely (op : Operator) (v w : Value) : Prop :=
  ∀ x y, v = .number x → w = .number y → op.isArithmetic → ¬((op = .div ∨ op = .mod) ∧ y == 0) →
    (Operation.number op x y).isFinite

theorem arithmetic_eq_ok {op : Operator} {x y : Float} (hop : op.isArithmetic)
    (hzero : ¬((op = .div ∨ op = .mod) ∧ y == 0))
    (h : FoldsFinitely op (.number x) (.number y)) (s : Scope) :
    (binary (.literal (.number x)) op (.literal (.number y))).eval s =
      .ok (.number (Operation.number op x y)) := by
  have hfinite := h x y rfl rfl hop hzero
  have hresult : Operation.arithmetic op (.number x) (.number y) =
      .ok (.number (Operation.number op x y)) := by
    simp only [Operation.arithmetic, if_neg hzero, Value.ofFinite, hfinite, if_true]
  cases op <;> cases hop <;> simp [eval, hresult]

theorem eval_of_foldBinary {op : Operator} {v w result : Value}
    (h : foldBinary op v w = some result) (hfinite : FoldsFinitely op v w) (s : Scope) :
    (binary (.literal v) op (.literal w)).eval s = .ok result := by
  cases op with
  | and | or =>
    cases v <;> cases w <;> cases h
    next a b => cases a <;> simp [eval, expectBool]
  | coalesce =>
    cases v <;> cases h <;> simp [eval]
  | eq | ne | lt | le | gt | ge =>
    cases v <;> cases w <;> cases h <;>
      simp [eval, Operation.compare, Operation.ordered, Value.equal, bne]
  | member | notMember => cases v <;> cases w <;> cases h
  | add =>
    cases v <;> cases w <;> cases h
    next x y => exact arithmetic_eq_ok rfl (by simp) hfinite s
    next a b => simp [eval, Operation.arithmetic, Operation.joins, Value.text, Value.isNull]
  | sub | mul | pow =>
    cases v <;> cases w <;> cases h
    next x y => exact arithmetic_eq_ok rfl (by simp) hfinite s
  | div | mod =>
    cases v <;> cases w <;> try cases h
    next x y =>
      simp only [foldBinary, Option.ite_none_left_eq_some, Option.some.injEq] at h
      obtain ⟨hzero, rfl⟩ := h
      exact arithmetic_eq_ok rfl (fun hz => hzero hz.2) hfinite s

theorem eval_binaryOf {op : Operator} {left right : Expr} {s : Scope}
    (h : ∀ v w, left = .literal v → right = .literal w → FoldsFinitely op v w) :
    (binaryOf left op right).eval s = (binary left op right).eval s := by
  unfold binaryOf
  split
  · next v w =>
    split
    · next result hr => exact (eval_of_foldBinary hr (h v w rfl rfl) s).symm
    · rfl
  · rfl

theorem eval_unaryOf (op : UnaryOperator) (operand : Expr) (s : Scope) :
    (unaryOf op operand).eval s = (unary op operand).eval s := by
  unfold unaryOf
  split
  · next v =>
    split
    · next result hr =>
      cases op <;> cases v <;> cases hr <;> simp [eval, Operation.unary]
    · rfl
  · rfl

theorem eval_ternaryOf (condition yes no : Expr) (s : Scope) :
    (ternaryOf condition yes no).eval s = (ternary condition yes no).eval s := by
  unfold ternaryOf
  split
  · next b => cases b <;> simp [eval, expectBool]
  · rfl

theorem eval_fold_binary {op : Operator} {left right : Expr} {s : Scope}
    (h : ¬(binary left op right).Overlooked s) (hleft : left.fold.eval s = left.eval s)
    (hright : op.goesOn (left.eval s) → right.fold.eval s = right.eval s)
    (hwritten : right.isInterval = false) :
    (binary left op right).fold.eval s = (binary left op right).eval s := by
  have hfinite : ∀ v w, left.fold = .literal v → right.fold = .literal w →
      FoldsFinitely op v w := by
    rintro v w hv hw x y rfl rfl hop hzero
    by_contra hinfinite
    have hx : left.eval s = .ok (.number x) := by rw [← hleft, hv, eval]
    have hgo : op.goesOn (left.eval s) := by
      rw [hx]
      cases op <;> cases hop <;> exact ⟨_, rfl⟩
    have hy : right.eval s = .ok (.number y) := by rw [← hright hgo, hw, eval]
    exact h (.outOfRange (by rw [isConstant, hv]; rfl) (by rw [isConstant, hw]; rfl) hx hy hop hzero
      (Bool.eq_false_iff.2 hinfinite))
  rw [fold, eval_binaryOf hfinite]
  refine eval_binary_congr hleft hright fun hop hgo => ⟨hwritten, ?_⟩
  by_contra hexposed
  have hfolded : right.fold.isInterval := by simpa using hexposed
  have hbare : right.eval s = .error (.type .bareInterval) := by
    rw [← hright hgo]
    exact eval_of_isInterval hfolded s
  obtain ⟨v, hv⟩ : ∃ v, left.eval s = .ok v := by cases op <;> cases hop <;> exact hgo
  exact h (.exposed hop hwritten hfolded hv hbare)

theorem eval_fold_ternary {condition yes no : Expr} {s : Scope}
    (hcondition : condition.fold.eval s = condition.eval s)
    (hyes : condition.eval s = .ok (.bool true) → yes.fold.eval s = yes.eval s)
    (hno : condition.eval s = .ok (.bool false) → no.fold.eval s = no.eval s) :
    (ternary condition yes no).fold.eval s = (ternary condition yes no).eval s := by
  rw [fold, eval_ternaryOf, eval, eval]
  refine bind_congr_ok hcondition fun v hv => ?_
  cases v with
  | bool b =>
    cases b with
    | true => simp only [expectBool, ok_bind, if_true, hyes hv]
    | false => simp only [expectBool, ok_bind, Bool.false_eq_true, if_false, hno hv]
  | _ => rfl

theorem eval_fold_closure {f : Builtin} (hf : f.isClosure) {collection body : Expr} {s : Scope}
    (hcollection : collection.fold.eval s = collection.eval s)
    (hbody : ∀ v before x after, collection.eval s = .ok v →
      f.elements v = .ok (before ++ x :: after) →
      (∀ u ∈ before, f.goesOn (body.eval (s.withElement u))) →
      body.fold.eval (s.withElement x) = body.eval (s.withElement x)) :
    (call f [collection.fold, body.fold]).eval s = (call f [collection, body]).eval s := by
  rw [eval_call_of_isClosure hf, eval_call_of_isClosure hf]
  refine bind_congr_ok hcollection fun v hv => ?_
  refine bind_congr_ok rfl fun elements helements => ?_
  apply Builtin.applyClosure_congr
  intro before x after heq hbefore
  rw [heq] at helements
  exact hbody v before x after hv helements hbefore

theorem length_foldAll (es : List Expr) : (foldAll es).length = es.length := by
  induction es with
  | nil => rfl
  | cons e rest ih => rw [foldAll, List.length_cons, ih, List.length_cons]

mutual

/-- Where nothing is overlooked, the folded expression has the same value or the same failure. -/
theorem eval_fold (e : Expr) (s : Scope) (h : ¬e.Overlooked s) : e.fold.eval s = e.eval s := by
  match e with
  | .literal _ | .field _ | .subject | .element => rw [fold]
  | .index base key =>
    rw [fold, eval, eval]
    refine bind_congr_ok (eval_fold base s fun o => h (.base o)) fun v hv => ?_
    rw [eval_fold key s fun o => h (.key hv o)]
  | .unary op operand =>
    rw [fold, eval_unaryOf, eval, eval, eval_fold operand s fun o => h (.operand o)]
  | .binary left op right =>
    have hleft := eval_fold left s fun o => h (.left o)
    cases hi : right.isInterval with
    | false =>
      have hright (hgo : op.goesOn (left.eval s)) := eval_fold right s fun o => h (.right hgo o)
      exact eval_fold_binary h hleft hright hi
    | true =>
      match right with
      | .interval start stop i j =>
        rw [fold, fold, eval_binaryOf fun v w _ hw => by cases hw]
        by_cases hop : op.isMembership
        · have hstart (v : Value) (hv : left.eval s = .ok v) :=
            eval_fold start s fun o => h (.start hop hv o)
          have hstop (v w : Value) (hv : left.eval s = .ok v) (hw : start.eval s = .ok w) :=
            eval_fold stop s fun o => h (.stop hop hv hw o)
          exact eval_membership_congr hop hleft hstart hstop
        · exact eval_binary_congr hleft (fun _ => rfl) fun hm => absurd hm hop
  | .ternary condition yes no =>
    have hcondition := eval_fold condition s fun o => h (.condition o)
    have hyes (hc : condition.eval s = .ok (.bool true)) := eval_fold yes s fun o => h (.yes hc o)
    have hno (hc : condition.eval s = .ok (.bool false)) := eval_fold no s fun o => h (.no hc o)
    exact eval_fold_ternary hcondition hyes hno
  | .array items =>
    rw [fold, eval, eval, evalAll_fold items s]
    rintro before e after rfl vs hvs o
    exact h (.item hvs o)
  | .object entries =>
    rw [fold, eval, eval, evalEntries_fold entries s]
    rintro before key e after rfl ms hms o
    exact h (.entry hms o)
  | .interval _ _ _ _ => rw [fold, eval, eval]
  | .call f args =>
    rw [fold]
    cases hcount : f.accepts args.length with
    | false =>
      have hcount' : f.accepts (foldAll args).length = false := by rw [length_foldAll, hcount]
      rw [eval_call_of_not_accepts hcount, eval_call_of_not_accepts hcount', length_foldAll]
    | true =>
      have hcount' : f.accepts (foldAll args).length := by rw [length_foldAll, hcount]
      cases hf : f.isClosure with
      | false =>
        rw [eval_call_of_accepts hf hcount, eval_call_of_accepts hf hcount', evalAll_fold args s]
        rintro before e after rfl vs hvs o
        exact h (.argument hf hcount hvs o)
      | true =>
        match args with
        | [collection, body] =>
          have hcollection := eval_fold collection s fun o => h (.collection hf o)
          rw [foldAll, foldAll, foldAll]
          apply eval_fold_closure hf hcollection
          intro v before x after hv helements hbefore
          exact eval_fold body _ fun o => h (.body hf hv helements hbefore o)
        | [] | [_] | _ :: _ :: _ :: _ =>
          exact absurd (Builtin.eq_two_of_accepts hf hcount) (by simp)
termination_by structural e

theorem evalAll_fold (es : List Expr) (s : Scope)
    (h : ∀ before e after, es = before ++ e :: after → ∀ vs, evalAll before s = .ok vs →
      ¬e.Overlooked s) : evalAll (foldAll es) s = evalAll es s := by
  match es with
  | [] => rfl
  | e :: rest =>
    rw [foldAll, evalAll, evalAll]
    refine bind_congr_ok (eval_fold e s (h [] e rest rfl [] rfl)) fun v hv => ?_
    rw [evalAll_fold rest s]
    rintro before e' after rfl vs hvs
    exact h (e :: before) e' after rfl (v :: vs) (by simp [evalAll, hv, hvs])
termination_by structural es

theorem evalEntries_fold (entries : List (String × Expr)) (s : Scope)
    (h : ∀ before key e after, entries = before ++ (key, e) :: after →
      ∀ ms, evalEntries before s = .ok ms → ¬e.Overlooked s) :
    evalEntries (foldEntries entries) s = evalEntries entries s := by
  match entries with
  | [] => rfl
  | (key, e) :: rest =>
    rw [foldEntries, evalEntries, evalEntries]
    refine bind_congr_ok (eval_fold e s (h [] key e rest rfl [] rfl)) fun v hv => ?_
    rw [evalEntries_fold rest s]
    rintro before key' e' after rfl ms hms
    exact h ((key, e) :: before) key' e' after rfl ((key, v) :: ms) (by simp [evalEntries, hv, hms])
termination_by structural entries

end

theorem eval_fold_of_ok {e : Expr} {s : Scope} {v : Value} (h : e.eval s = .ok v) :
    e.fold.eval s = .ok v := by
  rw [eval_fold e s, h]
  intro o
  obtain ⟨fault, ho⟩ := o.eval_eq_error
  cases h.symm.trans ho

theorem eval_fold_of_undefined {e : Expr} {s : Scope} {name : String}
    (h : e.eval s = .error (.undefined name)) : e.fold.eval s = .error (.undefined name) := by
  rw [eval_fold e s, h]
  intro o
  obtain ⟨fault, ho⟩ := o.eval_eq_error
  cases h.symm.trans ho

/-- An operator on constants that fails is folded exactly if it is arithmetic and only its result is
not finite. -/
theorem fold_constants_hides_iff (op : Operator) (v w : Value) (s : Scope) :
    ((∃ err, (binary (.literal v) op (.literal w)).eval s = .error err) ∧
      (foldBinary op v w).isSome) ↔ ¬FoldsFinitely op v w := by
  constructor
  · rintro ⟨⟨err, herr⟩, hsome⟩ hfinite
    obtain ⟨result, hresult⟩ := Option.isSome_iff_exists.1 hsome
    cases herr.symm.trans (eval_of_foldBinary hresult hfinite s)
  · intro h
    simp only [FoldsFinitely, not_forall] at h
    obtain ⟨x, y, rfl, rfl, hop, hzero, hinfinite⟩ := h
    have hx : (literal (.number x)).isConstant := rfl
    have hy : (literal (.number y)).isConstant := rfl
    have o : (binary (.literal (.number x)) op (.literal (.number y))).Overlooked s :=
      .outOfRange hx hy (by rw [eval]) (by rw [eval]) hop hzero (Bool.eq_false_iff.2 hinfinite)
    refine ⟨o.eval_eq_error.imp' _ fun _ => id, ?_⟩
    cases op <;> cases hop <;> first | rfl | simp_all [foldBinary]

/-- Folding keeps the failure of an expression in a scope exactly if nothing is overlooked there, or
the folded expression fails for another reason. Where nothing is overlooked, the failure is the
same. -/
theorem fold_keeps_failure_iff (e : Expr) (s : Scope) :
    (((∃ err, e.eval s = .error err) → ∃ err, e.fold.eval s = .error err) ↔
      (e.Overlooked s → ∃ err, e.fold.eval s = .error err)) ∧
    (¬e.Overlooked s → e.fold.eval s = e.eval s) ∧
    ∀ op v w, ((∃ err, (binary (.literal v) op (.literal w)).eval s = .error err) ∧
      (foldBinary op v w).isSome) ↔ ¬FoldsFinitely op v w := by
  refine ⟨?_, eval_fold e s, ?_⟩
  · constructor
    · intro h o
      obtain ⟨fault, hfails⟩ := o.eval_eq_error
      exact h ⟨.type fault, hfails⟩
    · intro h hfails
      by_cases o : e.Overlooked s
      · exact h o
      · rwa [eval_fold e s o]
  · intro op v w
    exact fold_constants_hides_iff op v w s

/-- The product of two finite constants that is too large fails as written, and has a value once it
is folded. -/
theorem fold_hides_overflow :
    (1e300 : Float).isFinite ∧
    (binary (number 1e300) .mul (number 1e300)).eval (.ofRoot .empty) =
      .error (.type (.outOfRange (1e300 * 1e300))) ∧
    (binary (number 1e300) .mul (number 1e300)).fold.eval (.ofRoot .empty) =
      .ok (.number (1e300 * 1e300)) := by
  have hfinite : (1e300 * 1e300 : Float).isFinite = false := by decide +kernel
  refine ⟨by decide +kernel, ?_, by simp [fold, number, binaryOf, foldBinary, eval]⟩
  simp [eval, number, Operation.arithmetic, Operation.number, Value.ofFinite, hfinite]

end RuleGraph.Expr

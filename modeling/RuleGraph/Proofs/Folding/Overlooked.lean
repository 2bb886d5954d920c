import RuleGraph.Expr.Fold
import RuleGraph.Proofs.Expr.Evaluation
/-!
# What folding overlooks

Folding loses two checks: whether the result of an operator on constants is finite, and whether an
interval stands where its value would be needed, which it does in a conditional that is folded to
the interval. `Overlooked` says that an evaluation comes to such a check and fails there.
-/
namespace RuleGraph.Expr

def isLiteral : Expr → Bool
  | .literal _ => true
  | _ => false

/-- Whether folding leaves nothing but a value. -/
def isConstant (e : Expr) : Bool :=
  e.fold.isLiteral

/-- The evaluation of an expression in a scope fails at a check that folding leaves out. -/
inductive Overlooked : Expr → Scope → Prop
  /-- The result of an operator on constants is not finite. -/
  | outOfRange {left op right s x y} (hleft : left.isConstant) (hright : right.isConstant)
      (hx : left.eval s = .ok (.number x)) (hy : right.eval s = .ok (.number y))
      (hop : op.isArithmetic) (hzero : ¬((op = .div ∨ op = .mod) ∧ y == 0))
      (hfinite : (Operation.number op x y).isFinite = false) : Overlooked (.binary left op right) s
  /-- What is looked for a member in is written as no interval but folded to one. -/
  | exposed {left op right s v} (hop : op.isMembership) (hwritten : right.isInterval = false)
      (hfolded : right.fold.isInterval) (hleft : left.eval s = .ok v)
      (hright : right.eval s = .error (.type .bareInterval)) : Overlooked (.binary left op right) s
  | left {left op right s} (h : Overlooked left s) : Overlooked (.binary left op right) s
  | right {left op right s} (hleft : op.goesOn (left.eval s)) (h : Overlooked right s) :
      Overlooked (.binary left op right) s
  | start {left op start stop i j s v} (hop : op.isMembership) (hleft : left.eval s = .ok v)
      (h : Overlooked start s) : Overlooked (.binary left op (.interval start stop i j)) s
  | stop {left op start stop i j s v w} (hop : op.isMembership) (hleft : left.eval s = .ok v)
      (hstart : start.eval s = .ok w) (h : Overlooked stop s) :
      Overlooked (.binary left op (.interval start stop i j)) s
  | operand {op operand s} (h : Overlooked operand s) : Overlooked (.unary op operand) s
  | base {base key s} (h : Overlooked base s) : Overlooked (.index base key) s
  | key {base key s v} (hbase : base.eval s = .ok v) (h : Overlooked key s) :
      Overlooked (.index base key) s
  | condition {condition yes no s} (h : Overlooked condition s) :
      Overlooked (.ternary condition yes no) s
  | yes {condition yes no s} (hcondition : condition.eval s = .ok (.bool true))
      (h : Overlooked yes s) : Overlooked (.ternary condition yes no) s
  | no {condition yes no s} (hcondition : condition.eval s = .ok (.bool false))
      (h : Overlooked no s) : Overlooked (.ternary condition yes no) s
  | item {before e after s vs} (hbefore : evalAll before s = .ok vs) (h : Overlooked e s) :
      Overlooked (.array (before ++ e :: after)) s
  | entry {before key e after s ms} (hbefore : evalEntries before s = .ok ms)
      (h : Overlooked e s) : Overlooked (.object (before ++ (key, e) :: after)) s
  | argument {f before e after s vs} (hf : f.isClosure = false)
      (hcount : f.accepts (before ++ e :: after).length) (hbefore : evalAll before s = .ok vs)
      (h : Overlooked e s) : Overlooked (.call f (before ++ e :: after)) s
  | collection {f collection body s} (hf : f.isClosure) (h : Overlooked collection s) :
      Overlooked (.call f [collection, body]) s
  /-- A closure comes to an element for which its body fails at such a check. -/
  | body {f collection body s v before x after} (hf : f.isClosure)
      (hcollection : collection.eval s = .ok v)
      (helements : f.elements v = .ok (before ++ x :: after))
      (hbefore : ∀ u ∈ before, f.goesOn (body.eval (s.withElement u)))
      (h : Overlooked body (s.withElement x)) : Overlooked (.call f [collection, body]) s

theorem Overlooked.isInterval_eq_false {e : Expr} {s : Scope} (h : e.Overlooked s) :
    e.isInterval = false := by
  cases h <;> rfl

/-- What is overlooked is a failure, and never that of a reference that is undefined. -/
theorem Overlooked.eval_eq_error {e : Expr} {s : Scope} (h : e.Overlooked s) :
    ∃ fault, e.eval s = .error (.type fault) := by
  induction h with
  | @outOfRange left op right s x y _ _ hx hy hop hzero hfinite =>
    refine ⟨.outOfRange (Operation.number op x y), ?_⟩
    have hresult : Operation.arithmetic op (.number x) (.number y) =
        .error (.type (.outOfRange (Operation.number op x y))) := by
      simp only [Operation.arithmetic, if_neg hzero, Value.ofFinite, hfinite, Bool.false_eq_true,
        if_false]
    cases op <;> cases hop <;> simp [eval, hx, hy, hresult]
  | exposed hop hwritten _ hleft hright =>
    exact ⟨.bareInterval, by simp only [eval_membership hop hwritten, hleft, hright, ok_bind,
      error_bind]⟩
  | left _ ih => exact ih.imp fun _ => eval_binary_of_left_error
  | right hleft h ih => exact ih.imp fun _ => eval_binary_of_right_error hleft h.isInterval_eq_false
  | @start _ op _ _ _ _ _ _ hop hleft _ ih =>
    obtain ⟨fault, hstart⟩ := ih
    exact ⟨fault, by cases op <;> cases hop <;> simp [eval, hleft, hstart]⟩
  | @stop _ op _ _ _ _ _ _ _ hop hleft hstart _ ih =>
    obtain ⟨fault, hstop⟩ := ih
    exact ⟨fault, by cases op <;> cases hop <;> simp [eval, hleft, hstart, hstop]⟩
  | operand _ ih => exact ih.imp fun _ h => by simp [eval, h]
  | base _ ih => exact ih.imp fun _ h => by simp [eval, h]
  | key hbase _ ih => exact ih.imp fun _ h => by simp [eval, hbase, h]
  | condition _ ih => exact ih.imp fun _ h => by simp [eval, h]
  | yes hcondition _ ih => exact ih.imp fun _ h => by simp [eval, hcondition, expectBool, h]
  | no hcondition _ ih => exact ih.imp fun _ h => by simp [eval, hcondition, expectBool, h]
  | item hbefore _ ih => exact ih.imp fun _ h => by simp [eval, evalAll_of_error hbefore h]
  | entry hbefore _ ih => exact ih.imp fun _ h => by simp [eval, evalEntries_of_error hbefore h]
  | argument hf hcount hbefore _ ih =>
    obtain ⟨fault, h⟩ := ih
    exact ⟨fault, by rw [eval_call_of_accepts hf hcount, evalAll_of_error hbefore h, error_bind]⟩
  | collection hf _ ih =>
    exact ih.imp fun _ h => by rw [eval_call_of_isClosure hf, h, error_bind]
  | body hf hcollection helements hbefore _ ih =>
    refine ih.imp fun _ h => ?_
    rw [eval_call_of_isClosure hf, hcollection, ok_bind, helements, ok_bind]
    exact Builtin.applyClosure_of_error hf hbefore h

end RuleGraph.Expr

import RuleGraph.Expr.Eval
import RuleGraph.Proofs.Expr.Closure
/-!
# Evaluation in steps

The equations of evaluation for operators and calls, and the first failure of a list of expressions.
-/
namespace RuleGraph

/-- Whether the right operand is evaluated after the result of the left one. -/
def Operator.goesOn (op : Operator) (result : Except EvalError Value) : Prop :=
  match op with
  | .and => result = .ok (.bool true)
  | .or => result = .ok (.bool false)
  | .coalesce => result = .ok .null ∨ ∃ name, result = .error (.undefined name)
  | _ => ∃ v, result = .ok v

namespace Expr

-- Most proofs here evaluate one step of an expression whose form is known.
attribute [local simp] eval

def isInterval : Expr → Bool
  | .interval _ _ _ _ => true
  | _ => false

theorem eval_of_isInterval {e : Expr} (h : e.isInterval) (s : Scope) :
    e.eval s = .error (.type .bareInterval) := by
  cases e with
  | interval start stop i j => rw [eval]
  | _ => cases h

theorem eval_membership {op : Operator} (hop : op.isMembership) {left right : Expr}
    (hright : right.isInterval = false) (s : Scope) :
    (binary left op right).eval s = (do
      let needle ← left.eval s
      return Operation.membership op (← Operation.contains op needle (← right.eval s))) := by
  cases op <;> cases hop <;> cases right <;> first | rfl | cases hright

/-- An operator has the same result on operands that have the same results, also of other
expressions in another scope, unless a right operand is an interval. -/
theorem eval_binary_of_operands {left left' right right' : Expr} {op : Operator} {s s' : Scope}
    (hleft : left'.eval s' = left.eval s) (hright : right'.eval s' = right.eval s)
    (hinterval : right.isInterval = false) (hinterval' : right'.isInterval = false) :
    (binary left' op right').eval s' = (binary left op right).eval s := by
  by_cases hop : op.isMembership
  · rw [eval_membership hop hinterval, eval_membership hop hinterval', hleft, hright]
  · cases op with
    | member | notMember => exact absurd rfl hop
    | _ => simp only [eval, hleft, hright]

theorem eval_binary_of_left_error {left right : Expr} {op : Operator} {s : Scope}
    {fault : TypeFault} (h : left.eval s = .error (.type fault)) :
    (binary left op right).eval s = .error (.type fault) := by
  cases op <;> simp [h]

theorem eval_binary_of_right_error {left right : Expr} {op : Operator} {s : Scope}
    {fault : TypeFault} (hleft : op.goesOn (left.eval s)) (hinterval : right.isInterval = false)
    (h : right.eval s = .error (.type fault)) :
    (binary left op right).eval s = .error (.type fault) := by
  by_cases hop : op.isMembership
  · obtain ⟨v, hv⟩ : ∃ v, left.eval s = .ok v := by cases op <;> cases hop <;> exact hleft
    simp [eval_membership hop hinterval, hv, h]
  · cases op with
    | member | notMember => simp [Operator.isMembership] at hop
    | and | or =>
      simp only [Operator.goesOn] at hleft
      simp [hleft, h, expectBool]
    | coalesce =>
      rcases hleft with hv | ⟨name, hv⟩ <;> simp [hv, h]
    | _ =>
      obtain ⟨v, hv⟩ := hleft
      simp [hv, h]

/-- Where the right operand is not evaluated, any other may stand in its place. -/
theorem eval_binary_of_not_goesOn {op : Operator} {left left' : Expr} {s : Scope}
    (hleft : left'.eval s = left.eval s) (h : ¬op.goesOn (left.eval s)) (right right' : Expr) :
    (binary left' op right').eval s = (binary left op right).eval s := by
  cases hr : left.eval s with
  | error err =>
    rw [hr] at hleft h
    cases op with
    | coalesce =>
      cases err with
      | undefined name => exact absurd (Or.inr ⟨name, rfl⟩) h
      | _ => simp only [eval, hleft, hr]
    | _ => simp only [eval, hleft, hr, error_bind]
  | ok v =>
    rw [hr] at hleft h
    cases op with
    | and | or =>
      cases v with
      | bool b => cases b <;> simp_all [expectBool, Operator.goesOn]
      | _ => simp only [eval, hleft, hr, expectBool, ok_bind, error_bind]
    | coalesce =>
      cases v with
      | null => exact absurd (Or.inl rfl) h
      | _ => simp only [eval, hleft, hr]
    | _ => exact absurd ⟨v, rfl⟩ h

/-- An operator has the same result on operands that have the same results as far as they are
evaluated, unless one of two right operands is an interval. -/
theorem eval_binary_congr {op : Operator} {left left' right right' : Expr} {s : Scope}
    (hleft : left'.eval s = left.eval s)
    (hright : op.goesOn (left.eval s) → right'.eval s = right.eval s)
    (hinterval : op.isMembership → op.goesOn (left.eval s) →
      right.isInterval = false ∧ right'.isInterval = false) :
    (binary left' op right').eval s = (binary left op right).eval s := by
  by_cases hgo : op.goesOn (left.eval s)
  · have hr := hright hgo
    by_cases hop : op.isMembership
    · obtain ⟨hi, hi'⟩ := hinterval hop hgo
      rw [eval_membership hop hi, eval_membership hop hi', hleft, hr]
    · cases op with
      | member | notMember => exact absurd rfl hop
      | _ => simp only [eval, hleft, hr]
  · exact eval_binary_of_not_goesOn hleft hgo right right'

theorem eval_membership_congr {op : Operator} (hop : op.isMembership)
    {left left' start start' stop stop' : Expr} {i j : Bool} {s : Scope}
    (hleft : left'.eval s = left.eval s)
    (hstart : ∀ v, left.eval s = .ok v → start'.eval s = start.eval s)
    (hstop : ∀ v w, left.eval s = .ok v → start.eval s = .ok w → stop'.eval s = stop.eval s) :
    (binary left' op (.interval start' stop' i j)).eval s =
      (binary left op (.interval start stop i j)).eval s := by
  have heq (left start stop : Expr) : (binary left op (.interval start stop i j)).eval s = (do
      let needle ← left.eval s
      let low ← start.eval s
      let high ← stop.eval s
      return Operation.membership op (← Operation.inInterval needle low high i j)) := by
    cases op <;> cases hop <;> rfl
  rw [heq, heq]
  refine bind_congr_ok hleft fun v hv => ?_
  refine bind_congr_ok (hstart v hv) fun w hw => ?_
  rw [hstop v w hv hw]

/-- Of the operators only `??` passes its operands on; the others decide or compute. -/
theorem ensures_binary {P : Value → Prop} {op : Operator} {left right : Expr} {s : Scope}
    (hbool : ∀ b, P (.bool b)) (harithmetic : ∀ v w, Ensures (Operation.arithmetic op v w) P)
    (hleft : op = .coalesce → Ensures (left.eval s) P)
    (hright : op = .coalesce → op.goesOn (left.eval s) → Ensures (right.eval s) P) :
    Ensures ((binary left op right).eval s) P := by
  cases op with
  | add | sub | mul | div | mod | pow => exact .after fun v => .after fun w => harithmetic v w
  | eq | ne | gt | ge | lt | le =>
    exact .after fun _ => .after fun _ => .after fun _ => .ok (hbool _)
  | and =>
    refine .after fun _ => .after fun b => ?_
    split
    · exact .after fun _ => .after fun _ => .ok (hbool _)
    · exact .ok (hbool _)
  | or =>
    refine .after fun _ => .after fun b => ?_
    split
    · exact .ok (hbool _)
    · exact .after fun _ => .after fun _ => .ok (hbool _)
  | member | notMember =>
    cases right with
    | interval =>
      exact .after fun _ => .after fun _ => .after fun _ => .after fun _ => .ok (hbool _)
    | _ => exact .after fun _ => .after fun _ => .after fun _ => .ok (hbool _)
  | coalesce =>
    rw [eval]
    split
    · next h => exact hright rfl (.inl h)
    · next h => exact hright rfl (.inr ⟨_, h⟩)
    · exact hleft rfl

theorem evalAll_append (before after : List Expr) (s : Scope) :
    evalAll (before ++ after) s = (do return (← evalAll before s) ++ (← evalAll after s)) := by
  induction before with
  | nil => simp [evalAll]
  | cons e rest ih => simp [evalAll, ih]

theorem evalEntries_append (before after : List (String × Expr)) (s : Scope) :
    evalEntries (before ++ after) s =
      (do return (← evalEntries before s) ++ (← evalEntries after s)) := by
  induction before with
  | nil => simp [evalEntries]
  | cons entry rest ih => simp [evalEntries, ih]

theorem length_of_evalAll {es : List Expr} {s : Scope} {vs : List Value}
    (h : evalAll es s = .ok vs) : vs.length = es.length := by
  induction es generalizing vs with
  | nil =>
    cases h
    rfl
  | cons e rest ih =>
    obtain ⟨v, -, h⟩ := bind_eq_ok.1 h
    obtain ⟨others, hothers, h⟩ := bind_eq_ok.1 h
    cases h
    rw [List.length_cons, ih hothers, List.length_cons]

theorem evalAll_of_error {before after : List Expr} {e : Expr} {s : Scope} {vs : List Value}
    {err : EvalError} (hbefore : evalAll before s = .ok vs) (h : e.eval s = .error err) :
    evalAll (before ++ e :: after) s = .error err := by
  simp [evalAll_append, evalAll, hbefore, h]

theorem evalEntries_of_error {before after : List (String × Expr)} {key : String} {e : Expr}
    {s : Scope} {ms : List (String × Value)} {err : EvalError}
    (hbefore : evalEntries before s = .ok ms) (h : e.eval s = .error err) :
    evalEntries (before ++ (key, e) :: after) s = .error err := by
  simp [evalEntries_append, evalEntries, hbefore, h]

theorem eval_call_of_not_accepts {f : Builtin} {args : List Expr}
    (h : f.accepts args.length = false) (s : Scope) :
    (call f args).eval s = f.refuse (.count args.length) := by
  unfold eval
  rw [h]
  rfl

theorem eval_call_of_accepts {f : Builtin} {args : List Expr} (hf : f.isClosure = false)
    (hcount : f.accepts args.length) (s : Scope) :
    (call f args).eval s = (do f.apply (← evalAll args s)) := by
  unfold eval
  rw [hcount, hf]
  rfl

theorem eval_call_of_isClosure {f : Builtin} (hf : f.isClosure) (collection body : Expr)
    (s : Scope) :
    (call f [collection, body]).eval s = (do
      let elements ← f.elements (← collection.eval s)
      f.applyClosure (fun v => body.eval (s.withElement v)) elements) := by
  simp [hf, Builtin.accepts_two_of_isClosure hf]

end Expr
end RuleGraph

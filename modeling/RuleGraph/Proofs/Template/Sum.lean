import RuleGraph.Template
import RuleGraph.Proofs.Expr.Evaluation
/-!
# Templates as sums

A text with spans is a sum: it begins with the empty text, and each segment adds a text, its own or
the one that the function `string` makes of its value. The sum has the text of the template and
fails as the first span that fails.
-/
namespace RuleGraph

/-- What a segment adds to a text. -/
def Segment.summand : Segment → Expr
  | text s => .string s
  | span e => .call .string [e]

/-- The sum of an expression and the segments of a template, from left to right. -/
def Template.sumFrom (first : Expr) (template : Template) : Expr :=
  template.foldl (fun sum a => .binary sum .add a.summand) first

def Template.sum (template : Template) : Expr :=
  template.sumFrom (.string "")

/-- The function `string` gives the text that a value has inside of another text, also for a number,
which it treats by itself. -/
theorem Builtin.toText_eq_text (v : Value) : Builtin.toText v = v.text := by
  cases v <;> rfl

theorem Operation.arithmetic_add_string (s t : String) :
    Operation.arithmetic .add (.string s) (.string t) = .ok (.string (s ++ t)) := rfl

namespace Expr

theorem eval_add (left right : Expr) (s : Scope) :
    (binary left .add right).eval s = (do
      let v ← left.eval s
      Operation.arithmetic .add v (← right.eval s)) := by
  rw [eval]

theorem eval_call_string (e : Expr) (s : Scope) :
    (call .string [e]).eval s = (do
      let v ← e.eval s
      return .string v.text) := by
  rw [eval_call_of_accepts rfl rfl, evalAll, evalAll]
  cases e.eval s with
  | error err => rfl
  | ok v => exact congrArg (Except.ok ∘ Value.string) (Builtin.toText_eq_text v)

end Expr

namespace Template
variable {first : Expr} {template : Template} {s : Scope}

/-- The text that a segment has in a scope. -/
def segmentText (s : Scope) : Segment → Except EvalError String
  | .text t => .ok t
  | .span e => do return (← e.eval s).text

theorem renderText_cons (a : Segment) (template : Template) (s : Scope) :
    renderText s (a :: template) = (do
      let t ← segmentText s a
      return t ++ (← renderText s template)) := by
  cases a with
  | text t => rfl
  | span e =>
    rw [renderText, segmentText]
    cases e.eval s <;> rfl

theorem eval_summand (a : Segment) (s : Scope) :
    a.summand.eval s = (segmentText s a).map .string := by
  cases a with
  | text t => rfl
  | span e =>
    rw [Segment.summand, Expr.eval_call_string, segmentText]
    cases e.eval s <;> rfl

theorem eval_add_summand {before : Except EvalError String}
    (h : first.eval s = before.map .string) (a : Segment) :
    (Expr.binary first .add a.summand).eval s =
      (do return (← before) ++ (← segmentText s a)).map .string := by
  rw [Expr.eval_add, h, eval_summand]
  cases before with
  | error err => rfl
  | ok t =>
    cases segmentText s a with
    | error err => rfl
    | ok u => exact Operation.arithmetic_add_string t u

/-- The sum of the segments behind a text has their texts behind it. The text is a result that may
be a failure: in the induction the segments before are the text, and one of them may have failed. -/
theorem eval_sumFrom {before : Except EvalError String} (h : first.eval s = before.map .string) :
    (template.sumFrom first).eval s =
      (do return (← before) ++ (← renderText s template)).map .string := by
  induction template generalizing first before with
  | nil =>
    rw [sumFrom, List.foldl_nil, h, renderText]
    cases before with
    | error err => rfl
    | ok t => exact congrArg (Except.ok ∘ Value.string) (String.append_empty).symm
  | cons a template ih =>
    have hrest := ih (eval_add_summand h a)
    rw [renderText_cons]
    rw [sumFrom] at hrest ⊢
    rw [List.foldl_cons, hrest]
    cases before with
    | error err => rfl
    | ok t =>
      cases segmentText s a with
      | error err => rfl
      | ok u =>
        cases renderText s template with
        | error err => rfl
        | ok rest => exact congrArg (Except.ok ∘ Value.string) (String.append_assoc)

/-- A template that is more than a span has the value of the sum of its segments, and where one of
its spans fails it fails as the sum does. -/
theorem render_eq_sum (h : template.single = none) (s : Scope) :
    template.render s = template.sum.eval s := by
  have hempty : (Expr.string "").eval s = (Except.ok "").map .string := rfl
  rw [render, h, sum, eval_sumFrom hempty]
  cases renderText s template with
  | error err => rfl
  | ok t => exact congrArg (Except.ok ∘ Value.string) (String.empty_append).symm

/-- A member and an array with text around them. -/
def offer : Template :=
  [.text "from ", .span (.field ["price"]), .text " ", .span (.array [.number 1e21, .bool true])]

def offerScope : Scope :=
  .ofRoot (.object [("price", .number 7.5)])

/-- Without a price the sum fails as the template does. -/
theorem offer_eq_sum :
    offer.single = none ∧ offer.render offerScope = offer.sum.eval offerScope ∧
      offer.sum.eval (.ofRoot .empty) = .error (.undefined "price") := by
  have hfails : offer.render (.ofRoot .empty) = .error (.undefined "price") := rfl
  exact ⟨rfl, render_eq_sum rfl offerScope, (render_eq_sum rfl _).symm.trans hfails⟩

end Template
end RuleGraph

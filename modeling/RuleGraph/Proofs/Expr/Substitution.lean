import RuleGraph.Proofs.Expr.Evaluation
/-!
# The subject written out

Binding `$` to the value of an expression is the same as writing the expression in the place of `$`.
This holds inside closures, too, since what an expression without a free `#` gives does not depend
on the element.
-/
namespace RuleGraph.Expr

mutual

/-- Whether `#` occurs outside of the closures of an expression. -/
def hasFreeElement : Expr → Bool
  | .element => true
  | .literal _ | .field _ | .subject => false
  | .index base key => base.hasFreeElement || key.hasFreeElement
  | .binary left _ right => left.hasFreeElement || right.hasFreeElement
  | .unary _ operand => operand.hasFreeElement
  | .call f args =>
    if f.isClosure then
      match args with
      | [] => false
      | collection :: _ => collection.hasFreeElement
    else anyHasFreeElement args
  | .ternary condition yes no =>
    condition.hasFreeElement || yes.hasFreeElement || no.hasFreeElement
  | .array items => anyHasFreeElement items
  | .object entries => entriesHaveFreeElement entries
  | .interval start stop _ _ => start.hasFreeElement || stop.hasFreeElement
termination_by structural e => e

def anyHasFreeElement : List Expr → Bool
  | [] => false
  | e :: rest => e.hasFreeElement || anyHasFreeElement rest
termination_by structural es => es

def entriesHaveFreeElement : List (String × Expr) → Bool
  | [] => false
  | (_, e) :: rest => e.hasFreeElement || entriesHaveFreeElement rest
termination_by structural entries => entries

end

mutual

/-- Without a free `#` an expression has the same result whatever the element is. -/
theorem eval_withElement (e : Expr) (h : e.hasFreeElement = false) (s : Scope) (u : Value) :
    e.eval (s.withElement u) = e.eval s := by
  match e with
  | .literal _ | .field _ | .subject | .interval _ _ _ _ => rfl
  | .element => cases h
  | .index base key =>
    obtain ⟨hbase, hkey⟩ := Bool.or_eq_false_iff.1 h
    rw [eval, eval, eval_withElement base hbase, eval_withElement key hkey]
  | .unary op operand => rw [eval, eval, eval_withElement operand h]
  | .binary left op right =>
    obtain ⟨hleft, hright⟩ := Bool.or_eq_false_iff.1 h
    have hl := eval_withElement left hleft s u
    cases hi : right.isInterval with
    | false => exact eval_binary_of_operands hl (eval_withElement right hright s u) hi hi
    | true =>
      match right with
      | .interval start stop i j =>
        obtain ⟨hstart, hstop⟩ := Bool.or_eq_false_iff.1 hright
        have hlow := eval_withElement start hstart s u
        have hhigh := eval_withElement stop hstop s u
        cases op <;> simp only [eval, hl, hlow, hhigh]
  | .ternary condition yes no =>
    obtain ⟨h, hno⟩ := Bool.or_eq_false_iff.1 h
    obtain ⟨hcondition, hyes⟩ := Bool.or_eq_false_iff.1 h
    rw [eval, eval, eval_withElement condition hcondition, eval_withElement yes hyes,
      eval_withElement no hno]
  | .array items => rw [eval, eval, evalAll_withElement items h]
  | .object entries => rw [eval, eval, evalEntries_withElement entries h]
  | .call f args =>
    cases hcount : f.accepts args.length with
    | false => rw [eval_call_of_not_accepts hcount, eval_call_of_not_accepts hcount]
    | true =>
      cases hf : f.isClosure with
      | false =>
        unfold hasFreeElement at h
        rw [hf] at h
        rw [eval_call_of_accepts hf hcount, eval_call_of_accepts hf hcount,
          evalAll_withElement args h]
      | true =>
        unfold hasFreeElement at h
        rw [hf] at h
        match args with
        | [collection, body] =>
          -- The body sees the element of the closure instead.
          rw [eval_call_of_isClosure hf, eval_call_of_isClosure hf,
            eval_withElement collection h]
          rfl
        | [] | [_] | _ :: _ :: _ :: _ =>
          exact absurd (Builtin.eq_two_of_accepts hf hcount) (by simp)
termination_by structural e

theorem evalAll_withElement (es : List Expr) (h : anyHasFreeElement es = false) (s : Scope)
    (u : Value) : evalAll es (s.withElement u) = evalAll es s := by
  match es with
  | [] => rfl
  | e :: rest =>
    obtain ⟨he, hrest⟩ := Bool.or_eq_false_iff.1 h
    rw [evalAll, evalAll, eval_withElement e he, evalAll_withElement rest hrest]
termination_by structural es

theorem evalEntries_withElement (entries : List (String × Expr))
    (h : entriesHaveFreeElement entries = false) (s : Scope) (u : Value) :
    evalEntries entries (s.withElement u) = evalEntries entries s := by
  match entries with
  | [] => rfl
  | (key, e) :: rest =>
    obtain ⟨he, hrest⟩ := Bool.or_eq_false_iff.1 h
    rw [evalEntries, evalEntries, eval_withElement e he, evalEntries_withElement rest hrest]
termination_by structural entries

end

mutual

/-- An expression with another one in the place of every `$`, closures included. -/
def replaceSubject : Expr → Expr → Expr
  | .subject, f => f
  | .literal v, _ => .literal v
  | .field path, _ => .field path
  | .element, _ => .element
  | .index base key, f => .index (base.replaceSubject f) (key.replaceSubject f)
  | .binary left op right, f => .binary (left.replaceSubject f) op (right.replaceSubject f)
  | .unary op operand, f => .unary op (operand.replaceSubject f)
  | .call g args, f => .call g (replaceSubjectAll args f)
  | .ternary condition yes no, f =>
    .ternary (condition.replaceSubject f) (yes.replaceSubject f) (no.replaceSubject f)
  | .array items, f => .array (replaceSubjectAll items f)
  | .object entries, f => .object (replaceSubjectEntries entries f)
  | .interval start stop startIncluded stopIncluded, f =>
    .interval (start.replaceSubject f) (stop.replaceSubject f) startIncluded stopIncluded
termination_by structural e => e

def replaceSubjectAll : List Expr → Expr → List Expr
  | [], _ => []
  | e :: rest, f => e.replaceSubject f :: replaceSubjectAll rest f
termination_by structural es => es

def replaceSubjectEntries : List (String × Expr) → Expr → List (String × Expr)
  | [], _ => []
  | (key, e) :: rest, f => (key, e.replaceSubject f) :: replaceSubjectEntries rest f
termination_by structural entries => entries

end

@[simp] theorem length_replaceSubjectAll (es : List Expr) (f : Expr) :
    (replaceSubjectAll es f).length = es.length := by
  induction es with
  | nil => rfl
  | cons e rest ih => simp [replaceSubjectAll, ih]

/-- What has a value is no interval, so an interval stands where one stood before. -/
theorem isInterval_replaceSubject {f : Expr} (hf : f.isInterval = false) (e : Expr) :
    (e.replaceSubject f).isInterval = e.isInterval := by
  cases e with
  | subject => exact hf
  | _ => rfl

mutual

theorem eval_replaceSubject (e : Expr) {f : Expr} {s : Scope} {v : Value}
    (hfree : f.hasFreeElement = false) (hv : f.eval s = .ok v) :
    (e.replaceSubject f).eval s = e.eval (s.withSubject v) := by
  match e with
  | .literal _ | .field _ | .element | .interval _ _ _ _ => rfl
  | .subject => exact hv
  | .index base key =>
    rw [replaceSubject, eval, eval, eval_replaceSubject base hfree hv,
      eval_replaceSubject key hfree hv]
  | .unary op operand => rw [replaceSubject, eval, eval, eval_replaceSubject operand hfree hv]
  | .binary left op right =>
    have hl := eval_replaceSubject left hfree hv
    have hf : f.isInterval = false := by
      rw [← Bool.not_eq_true]
      intro hi
      rw [eval_of_isInterval hi] at hv
      cases hv
    have hsame := isInterval_replaceSubject hf right
    cases hi : right.isInterval with
    | false =>
      exact eval_binary_of_operands hl (eval_replaceSubject right hfree hv) hi (hsame.trans hi)
    | true =>
      match right with
      | .interval start stop i j =>
        have hlow := eval_replaceSubject start hfree hv
        have hhigh := eval_replaceSubject stop hfree hv
        cases op <;> simp only [replaceSubject, eval, hl, hlow, hhigh]
  | .ternary condition yes no =>
    rw [replaceSubject, eval, eval, eval_replaceSubject condition hfree hv,
      eval_replaceSubject yes hfree hv, eval_replaceSubject no hfree hv]
  | .array items => rw [replaceSubject, eval, eval, evalAll_replaceSubject items hfree hv]
  | .object entries =>
    rw [replaceSubject, eval, eval, evalEntries_replaceSubject entries hfree hv]
  | .call g args =>
    cases hcount : g.accepts args.length with
    | false =>
      rw [replaceSubject, eval_call_of_not_accepts (by rwa [length_replaceSubjectAll]),
        eval_call_of_not_accepts hcount, length_replaceSubjectAll]
    | true =>
      cases hg : g.isClosure with
      | false =>
        rw [replaceSubject, eval_call_of_accepts hg (by rwa [length_replaceSubjectAll]),
          eval_call_of_accepts hg hcount, evalAll_replaceSubject args hfree hv]
      | true =>
        match args with
        | [collection, body] =>
          have hcollection := eval_replaceSubject collection hfree hv
          -- With an element bound, the expression still has its value.
          have hbody (u : Value) : (body.replaceSubject f).eval (s.withElement u) =
              body.eval ((s.withSubject v).withElement u) :=
            eval_replaceSubject body hfree ((eval_withElement f hfree s u).trans hv)
          simp only [replaceSubject, replaceSubjectAll, eval_call_of_isClosure hg, hcollection,
            hbody]
        | [] | [_] | _ :: _ :: _ :: _ =>
          exact absurd (Builtin.eq_two_of_accepts hg hcount) (by simp)
termination_by structural e

theorem evalAll_replaceSubject (es : List Expr) {f : Expr} {s : Scope} {v : Value}
    (hfree : f.hasFreeElement = false) (hv : f.eval s = .ok v) :
    evalAll (replaceSubjectAll es f) s = evalAll es (s.withSubject v) := by
  match es with
  | [] => rfl
  | e :: rest =>
    rw [replaceSubjectAll, evalAll, evalAll, eval_replaceSubject e hfree hv,
      evalAll_replaceSubject rest hfree hv]
termination_by structural es

theorem evalEntries_replaceSubject (entries : List (String × Expr)) {f : Expr} {s : Scope}
    {v : Value} (hfree : f.hasFreeElement = false) (hv : f.eval s = .ok v) :
    evalEntries (replaceSubjectEntries entries f) s = evalEntries entries (s.withSubject v) := by
  match entries with
  | [] => rfl
  | (key, e) :: rest =>
    rw [replaceSubjectEntries, evalEntries, evalEntries, eval_replaceSubject e hfree hv,
      evalEntries_replaceSubject rest hfree hv]
termination_by structural entries

end

/-- Binding `$` to the value of an expression without a free `#` gives what the expression gives in
the place of `$`, a value or a failure, and the same holds for tests. The expression may mention `$`
itself, which then is the one of the scope around it. -/
theorem eval_withSubject (c f : Expr) (s : Scope) (v : Value) (hfree : f.hasFreeElement = false)
    (hv : f.eval s = .ok v) :
    c.eval (s.withSubject v) = (c.replaceSubject f).eval s ∧
      c.holds (s.withSubject v) = (c.replaceSubject f).holds s := by
  have heval := eval_replaceSubject c hfree hv
  exact ⟨heval.symm, by rw [holds, holds, heval]⟩

/-- `count(items, # > 1)` -/
def itemsAboveOne : Expr :=
  .call .count [.field ["items"], .binary .element .gt (.number 1)]

/-- `$ in [1..5] and some(items, # == $)` -/
def smallItemCell : Expr :=
  .binary (.binary .subject .member (.interval (.number 1) (.number 5) true true)) .and
    (.call .some [.field ["items"], .binary .element .eq .subject])

def itemsContext : Value :=
  .object [("items", .array [.number 1, .number 2, .number 3])]

theorem smallItemCell_withSubject :
    itemsAboveOne.hasFreeElement = false ∧
      itemsAboveOne.eval (.ofRoot itemsContext) = .ok (.number (Float.ofNat 2)) ∧
      smallItemCell.eval ((Scope.ofRoot itemsContext).withSubject (.number (Float.ofNat 2))) =
        (smallItemCell.replaceSubject itemsAboveOne).eval (.ofRoot itemsContext) := by
  have hv : itemsAboveOne.eval (.ofRoot itemsContext) = .ok (.number (Float.ofNat 2)) := by
    rfl
  exact ⟨rfl, hv, (eval_withSubject smallItemCell itemsAboveOne _ _ rfl hv).1⟩

end RuleGraph.Expr

import RuleGraph.Expr.Parser
import RuleGraph.Proofs.Results
/-!
# How reading an expression fails

An expression is refused for a fault at a position, for its end, or for a call: of a function that
does not exist, or with a number of arguments that the function does not accept.
-/
namespace RuleGraph

/-- Whether an error is one of reading an expression, and what it says of a call is so. -/
def ParseError.IsApt : ParseError → Prop
  | malformed _ _ | unexpectedEnd _ => True
  | unknownFunction name => Builtin.ofName? name = none
  | invalidArity f actual => f.accepts actual = false
  | unclosedSpan _ | json | yaml | unknownNodeKind _ _ | invalidContent _ => False

namespace Parser
variable {α β : Type} {p : Parser α} {f : α → Parser β}

def FailsAptly (p : Parser α) : Prop :=
  ∀ c, FailsOnly (p c) ParseError.IsApt

namespace FailsAptly

theorem pure (a : α) : FailsAptly (Pure.pure a) :=
  fun _ => .ok _

theorem bind (hp : FailsAptly p) (hf : ∀ a, FailsAptly (f a)) : FailsAptly (p >>= f) :=
  fun c => .bind (hp c) fun r _ => hf r.1 r.2

theorem throw {x : ParseError} (hx : x.IsApt) : FailsAptly (throw x : Parser α) :=
  fun _ => .error hx

theorem fail (fault : Fault) : FailsAptly (fail fault : Parser α) :=
  fun _ => .error trivial

theorem refuse (what : Expected) : FailsAptly (refuse what : Parser α) := by
  refine fun c => .error ?_
  unfold Cursor.unexpected
  split <;> trivial

theorem peek : FailsAptly peek :=
  fun _ => .ok _

theorem skip : FailsAptly skip :=
  fun _ => .ok _

theorem left : FailsAptly left :=
  fun _ => .ok _

theorem get : FailsAptly (get : Parser Cursor) :=
  fun _ => .ok _

theorem eat (t : Lexeme) : FailsAptly (eat t) := by
  intro c
  unfold Parser.eat
  split <;> exact .ok _

theorem expect (t : Lexeme) (what : Expected) : FailsAptly (expect t what) := by
  refine (eat t).bind fun found => ?_
  split
  · exact pure _
  · exact refuse what

theorem countOperator : FailsAptly countOperator := by
  intro c
  unfold Parser.countOperator
  split
  · exact .error trivial
  · exact .ok _

theorem chain {choice : Choice} {operand : Parser Expr} (hoperand : FailsAptly operand)
    (fuel : Nat) (e : Expr) : FailsAptly (chain choice operand fuel e) := by
  induction fuel generalizing e with
  | zero => exact pure e
  | succ fuel ih =>
    refine get.bind fun c => ?_
    split
    · exact pure e
    · next op double _ =>
      have hcount : FailsAptly (do
          Parser.countOperator
          let right ← operand
          Parser.chain choice operand fuel (.binary e op right)) :=
        countOperator.bind fun _ => hoperand.bind fun _ => ih _
      refine skip.bind fun _ => ?_
      cases double with
      | true => exact skip.bind fun _ => hcount
      | false => exact hcount

theorem level {choice : Choice} {operand : Parser Expr} (hoperand : FailsAptly operand) :
    FailsAptly (level choice operand) :=
  hoperand.bind fun _ => chain hoperand _ _

theorem expectEnd : FailsAptly expectEnd := by
  refine peek.bind fun t => ?_
  split
  · exact pure _
  · exact fail _

end FailsAptly

structure Inner.FailsAptly (inner : Inner) : Prop where
  expression : Parser.FailsAptly inner.expression
  signed : Parser.FailsAptly inner.signed
  bound : Parser.FailsAptly inner.bound

section
variable {inner : Inner} (hinner : inner.FailsAptly)
include hinner

theorem failsAptly_intervalRest (start : Expr) (startIncluded : Bool) :
    FailsAptly (intervalRest inner start startIncluded) := by
  refine hinner.bound.bind fun stop => .bind .peek fun t => ?_
  split
  · exact .bind .skip fun _ => .pure _
  · exact .bind .skip fun _ => .pure _
  · exact .refuse _

theorem failsAptly_itemsRest (fuel : Nat) (items : List Expr) :
    FailsAptly (itemsRest inner fuel items) := by
  induction fuel generalizing items with
  | zero => exact .pure items
  | succ fuel ih =>
    refine .bind (.eat _) fun found => ?_
    split
    · refine .bind .peek fun t => ?_
      split
      · exact .pure _
      · exact hinner.expression.bind fun item => ih _
    · exact .pure _

theorem failsAptly_argumentsRest (fuel : Nat) (args : List Expr) :
    FailsAptly (argumentsRest inner fuel args) := by
  induction fuel generalizing args with
  | zero => exact .pure args
  | succ fuel ih =>
    refine hinner.expression.bind fun arg => .bind (.eat _) fun found => ?_
    split
    · exact .pure _
    · exact .bind (.expect _ _) fun _ => ih _

theorem failsAptly_entriesRest (fuel : Nat) (entries : List (String × Expr)) :
    FailsAptly (entriesRest inner fuel entries) := by
  induction fuel generalizing entries with
  | zero => exact .pure _
  | succ fuel ih =>
    have hentry (key : String) : FailsAptly (do
        skip
        expect .colon .keyColon
        let value ← inner.expression
        let entries := entries ++ [(key, value)]
        if ← eat .comma then entriesRest inner fuel entries
        else
          expect .closeBrace .closeBrace
          return .object entries) := by
      refine .bind .skip fun _ => .bind (.expect _ _) fun _ => ?_
      refine hinner.expression.bind fun value => .bind (.eat _) fun found => ?_
      split
      · exact ih _
      · exact .bind (.expect _ _) fun _ => .pure _
    refine .bind .peek fun t => ?_
    split
    · exact .bind .skip fun _ => .pure _
    · exact hentry _
    · exact hentry _
    · exact .refuse _

theorem failsAptly_bracketRest : FailsAptly (bracketRest inner) := by
  refine .bind (.eat _) fun found => ?_
  split
  · exact .pure _
  · refine hinner.expression.bind fun first => .bind (.eat _) fun found => ?_
    split
    · exact failsAptly_intervalRest hinner first true
    · exact .bind .left fun fuel => (failsAptly_itemsRest hinner fuel _).bind fun items =>
        .bind (.expect _ _) fun _ => .pure _

theorem failsAptly_parenRest : FailsAptly (parenRest inner) := by
  refine hinner.expression.bind fun first => .bind (.eat _) fun found => ?_
  split
  · exact failsAptly_intervalRest hinner first false
  · exact .bind (.expect _ _) fun _ => .pure _

/-- The function and the number of its arguments are refused here only. -/
theorem failsAptly_callRest (name : String) : FailsAptly (callRest inner name) := by
  unfold callRest
  split
  · next hname => exact .throw hname
  · next f _ =>
    have hcall (args : List Expr) : FailsAptly (if f.accepts args.length
        then pure (Expr.call f args) else throw (.invalidArity f args.length)) := by
      split
      · exact .pure _
      · next harity => exact .throw (by simpa [ParseError.IsApt] using harity)
    refine .bind (.expect _ _) fun _ => .bind (.eat _) fun found => ?_
    split
    · exact hcall []
    · exact .bind .left fun fuel => (failsAptly_argumentsRest hinner fuel []).bind hcall

theorem failsAptly_primary : FailsAptly (primary inner) := by
  refine .bind .peek fun t => ?_
  split
  · exact .bind .skip fun _ => .pure _
  · refine .bind .skip fun _ => .bind .peek fun t => ?_
    split
    · exact failsAptly_callRest hinner _
    · exact .pure _
  · exact .bind .skip fun _ => failsAptly_parenRest hinner
  · exact .bind .skip fun _ => failsAptly_bracketRest hinner
  · exact .bind .skip fun _ => .bind .left fun fuel => failsAptly_entriesRest hinner fuel []
  · exact .refuse _

theorem failsAptly_accessRest (fuel : Nat) (e : Expr) :
    FailsAptly (accessRest inner fuel e) := by
  induction fuel generalizing e with
  | zero => exact .pure e
  | succ fuel ih =>
    refine .bind .peek fun t => ?_
    split
    · refine .bind .skip fun _ => .bind .peek fun t => ?_
      split
      · exact .bind .skip fun _ => ih _
      · exact .refuse _
    · exact .bind .skip fun _ => hinner.expression.bind fun key =>
        .bind (.expect _ _) fun _ => ih _
    · exact .pure e

theorem failsAptly_access : FailsAptly (access inner) :=
  (failsAptly_primary hinner).bind fun _ => .bind .left fun _ => failsAptly_accessRest hinner _ _

theorem failsAptly_power : FailsAptly (power inner) := by
  refine (failsAptly_access hinner).bind fun base => .bind (.eat _) fun found => ?_
  split
  · exact hinner.signed.bind fun exponent => .pure _
  · exact .pure _

theorem failsAptly_signed : FailsAptly (signed inner) := by
  refine .bind .peek fun t => ?_
  split
  · exact .bind .skip fun _ => hinner.signed.bind fun e => .pure _
  · exact .bind .skip fun _ => hinner.signed.bind fun e => .pure _
  · exact .bind .skip fun _ => hinner.signed.bind fun e => .pure _
  · exact failsAptly_power hinner

theorem failsAptly_sum : FailsAptly (sum inner) :=
  .level (.level (failsAptly_signed hinner))

theorem failsAptly_conditional : FailsAptly (conditional inner) := by
  have hcondition : FailsAptly (coalescence inner) :=
    .level (.level (.level (.level (.level (.level (failsAptly_sum hinner))))))
  refine hcondition.bind fun condition => .bind (.eat _) fun found => ?_
  split
  · exact hinner.expression.bind fun yes => .bind (.expect _ _) fun _ =>
      hinner.expression.bind fun no => .pure _
  · exact .pure _

end

theorem failsAptly_inner (fuel depth : Nat) : (inner fuel depth).FailsAptly := by
  induction fuel generalizing depth with
  | zero => exact ⟨.fail _, .fail _, .fail _⟩
  | succ fuel ih =>
    cases depth with
    | zero => exact ⟨.fail _, .fail _, failsAptly_sum (ih 0)⟩
    | succ depth =>
      exact ⟨failsAptly_conditional (ih depth), failsAptly_signed (ih depth),
        failsAptly_sum (ih (depth + 1))⟩

theorem failsAptly_wholeExpression : FailsAptly wholeExpression :=
  .bind .left fun fuel => (failsAptly_inner fuel maxNesting).expression.bind fun _ =>
    .bind .expectEnd fun _ => .pure _

end Parser

theorem Lexer.failsOnly_lexeme (position : Nat) (c : Char) (cs : List Char) :
    FailsOnly (lexeme position c cs) ParseError.IsApt := by
  unfold lexeme
  dsimp only
  repeat' split
  all_goals first | exact .ok _ | exact .error trivial

theorem Lexer.failsOnly_tokensFrom (position : Nat) (cs : List Char) :
    FailsOnly (tokensFrom position cs) ParseError.IsApt := by
  induction position, cs using tokensFrom.induct with
  | case1 p =>
    rw [tokensFrom]
    exact .ok _
  | case2 p c cs hc ih =>
    rw [tokensFrom, if_pos hc]
    exact ih
  | case3 p c cs hc e he =>
    rw [tokensFrom, if_neg hc, he]
    exact .error (failsOnly_lexeme p c cs e he)
  | case4 p c cs hc t n ht e he ih =>
    rw [tokensFrom, if_neg hc, ht]
    simp only [he]
    exact .error (ih e he)
  | case5 p c cs hc t n ht rest hrest ih =>
    rw [tokensFrom, if_neg hc, ht]
    simp only [hrest]
    exact .ok _

/-- An expression that is refused is refused for an error of its own. -/
theorem Expr.failsOnly_parse (source : String) : FailsOnly (parse source) ParseError.IsApt := by
  unfold parse
  split
  · exact .error trivial
  · exact .bind (Lexer.failsOnly_tokensFrom 0 source.toList) fun tokens _ =>
      .bind (Parser.failsAptly_wholeExpression ⟨tokens, 0⟩) fun _ _ => .ok _

end RuleGraph

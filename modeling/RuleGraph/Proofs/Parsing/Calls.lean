import RuleGraph.Proofs.Parsing.Course
/-!
# More calls

A run that has an outcome has the same one if more calls are allowed.
-/
namespace RuleGraph
namespace Indexed

variable {α β : Type}

/-- Where a run has an outcome, another one has it too. -/
def Extends (p q : Machine α) : Prop :=
  ∀ s r, p s = some r → q s = some r

namespace Extends

theorem refl (p : Machine α) : Extends p p :=
  fun _ _ h => h

theorem trans {p q r : Machine α} (h : Extends p q) (h' : Extends q r) : Extends p r :=
  fun s x hx => h' s x (h s x hx)

theorem bind {p q : Machine α} {f g : α → Machine β} (h : Extends p q)
    (h' : ∀ a, Extends (f a) (g a)) : Extends (p >>= f) (q >>= g) := by
  intro s r hr
  rw [bind_apply] at hr ⊢
  cases hp : p s with
  | none =>
    rw [hp] at hr
    cases hr
  | some x =>
    rw [hp] at hr
    rw [h s x hp]
    obtain ⟨a | e, s'⟩ := x
    · exact hr
    · exact h' e s' r hr

theorem deeper {p q : Machine Expr} (h : Extends p q) : Extends
    (fun s => if maxNesting < s.entered.nesting then fail .tooDeep s
      else p s.entered >>= fun r => pure (r.1, r.2.exited))
    (fun s => if maxNesting < s.entered.nesting then fail .tooDeep s
      else q s.entered >>= fun r => pure (r.1, r.2.exited)) := by
  intro s r hr
  dsimp only at hr ⊢
  split at hr
  · next hlimit => rwa [if_pos hlimit]
  · next hlimit =>
    rw [if_neg hlimit]
    cases hp : p s.entered with
    | none =>
      rw [hp] at hr
      cases hr
    | some x =>
      rw [hp] at hr
      rw [h _ x hp]
      exact hr

end Extends

theorem extends_succ (calls : Nat) : (∀ part, Extends (parse calls part) (parse (calls + 1) part)) ∧
    ∀ rest, Extends (loop calls rest) (loop (calls + 1) rest) := by
  induction calls with
  | zero =>
    constructor
    · intro part s r h
      rw [parse] at h
      cases h
    · intro rest s r h
      rw [loop] at h
      cases h
  | succ calls ih =>
    obtain ⟨hparse, hloop⟩ := ih
    constructor
    case' left =>
      intro part
      cases part
      case' deeper part =>
        rw [parse, parse]
        exact (hparse part).deeper
      all_goals rw [parse, parse]
    case' right =>
      intro rest
      cases rest
      all_goals rw [loop, loop]
    -- The two runs differ in the calls alone, and these stand behind binds and case distinctions.
    all_goals
      repeat' first
        | exact hparse _
        | exact hloop _
        | with_reducible exact .refl _
        | refine .bind ?_ fun _ => ?_
        | split

theorem parse_extends {m n : Nat} (h : m ≤ n) (part : Part) :
    Extends (parse m part) (parse n part) := by
  induction h with
  | refl => exact .refl _
  | step _ ih => exact ih.trans ((extends_succ _).1 part)

theorem wholeExpression_extends {m n : Nat} (h : m ≤ n) :
    Extends (wholeExpression m) (wholeExpression n) :=
  .bind (parse_extends h _) fun _ => .refl _

theorem wholeCell_extends {m n : Nat} (h : m ≤ n) : Extends (wholeCell m) (wholeCell n) :=
  .bind (parse_extends h _) fun _ => .refl _

end Indexed
end RuleGraph

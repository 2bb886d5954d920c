import RuleGraph.Proofs.Results
import RuleGraph.Run.Evaluate
/-!
# What a run has done

The state after a node that did not fail, after nodes of which none failed, and the result of a
decision in terms of them. Hosts have no effects here.
-/
namespace RuleGraph
theorem Context.start_eq_ok {c c' : Context} {position : Nat} :
    c.start position = .ok c' ↔
      c.state? position = some .pending ∧ c' = c.set position .evaluating := by
  unfold Context.start
  cases c.state? position with
  | none => simp
  | some state => cases state <;> simp [eq_comm]

theorem Context.complete_of_lt {c : Context} {position : Nat} (h : position < c.states.length)
    (output : Value) : c.complete position output = .ok (c.set position (.done output)) := by
  simp [Context.complete, Context.state?, h]

theorem Step.outcome_of_decision {m : Type → Type} [Monad m] {host : Host m}
    {nested : Decision → Value → m (Except RunError Result)} {iteration : UInt8} {step : Step}
    {key : String} (h : step.program = .decision key) (input : Value) :
    step.outcome host nested iteration input = decisionOutcome host.resolver nested key input := by
  rw [outcome, outcomeBy, h]

theorem Context.result_eq_ok {x : Id (Context × Option RunError)} {d : Decision} {r : Result} :
    (do
      match ← x with
      | (_, some e) => return .error e
      | (c, none) => return .ok (c.result d) : Id (Except RunError Result)).run = .ok r ↔
      ∃ c, x.run = (c, none) ∧ r = c.result d := by
  cases h : x.run with
  | mk c failure =>
    cases failure with
    | none => simp [h, eq_comm]
    | some e => simp [h]

variable [Clock] {outcome : Step → Value → Id (Except RunError Outcome)}

/-- The state after a node that was given an input and had an outcome. -/
def Context.finish (c : Context) (position : Nat) (step : Step) (input : Value) (o : Outcome) :
    Context :=
  ((c.set position .evaluating).record (step.visit position input o)).set position (.done o.output)

theorem Context.advance_eq_none {c c' : Context} {position : Nat} {step : Step} :
    (c.advance outcome position step).run = (c', none) ↔
      c.state? position = some .pending ∧ ∃ input o,
        (c.set position .evaluating).inputOf step = .ok input ∧
        (outcome step input).run = .ok o ∧ c' = c.finish position step input o := by
  unfold Context.advance Context.advanceHistory
  cases hs : c.start position with
  | error fault =>
    have hno : ¬c.state? position = some .pending := fun hp => by
      cases hs.symm.trans (Context.start_eq_ok.2 ⟨hp, rfl⟩)
    simp [hno]
  | ok begun =>
    obtain ⟨hpending, rfl⟩ := Context.start_eq_ok.1 hs
    have hlt : position < c.states.length := by
      rw [Context.state?] at hpending
      exact (List.getElem?_eq_some_iff.1 hpending).1
    cases hi : (c.set position .evaluating).inputOf step with
    | error fault => simp [hi]
    | ok input =>
      cases ho : (outcome step input).run with
      | error e => simp [hi, ho, hpending]
      | ok o =>
        have hcomplete :
            ((c.set position .evaluating).record (step.visit position input o)).complete position
              o.output = .ok (c.finish position step input o) :=
          Context.complete_of_lt (by simpa [Context.record] using hlt) o.output
        simp [hi, ho, hpending, hcomplete, eq_comm]

/-- Nodes that do not fail are done one after another. -/
theorem Context.run_cons_eq_none {c c' : Context} {position : Nat} {step : Step}
    {rest : List Step} :
    (c.run outcome position (step :: rest)).run = (c', none) ↔
      ∃ d, (c.advance outcome position step).run = (d, none) ∧
        (d.run outcome (position + 1) rest).run = (c', none) := by
  rw [Context.run]
  cases h : (c.advance outcome position step).run with
  | mk d failure =>
    cases failure with
    | none => simp [h]
    | some e => simp [h]

section
variable {host : Host Id} {options : Options} {iteration : UInt8} {d : Decision} {input : Value}
  {r : Result}

/-- A decision has a result exactly if there is a level left for it and none of its nodes fails. -/
theorem Decision.evaluateWithin_eq_ok {levels : Nat} :
    (d.evaluateWithin host options levels iteration input).run = .ok r ↔
      ∃ below c, levels = below + 1 ∧
        ((Context.initial input iteration options d.steps.length).run
          (Step.outcome host (evaluateWithin host options below (deeper iteration)) iteration) 0
            d.steps).run = (c, none) ∧ r = c.result d := by
  cases levels with
  | zero => simp [evaluateWithin]
  | succ below =>
    rw [evaluateWithin]
    refine Context.result_eq_ok.trans ?_
    constructor
    · rintro ⟨c, hrun, hr⟩
      exact ⟨below, c, rfl, hrun, hr⟩
    · rintro ⟨_, c, hlevels, hrun, hr⟩
      cases hlevels
      exact ⟨c, hrun, hr⟩

theorem Decision.evaluateAt_eq_ok :
    (d.evaluateAt host options iteration input).run = .ok r ↔
      iteration < options.limit ∧ ∃ c,
        ((Context.initial input iteration options d.steps.length).run
          (Step.outcome host (evaluateAt host options (deeper iteration)) iteration) 0
            d.steps).run = (c, none) ∧ r = c.result d := by
  by_cases hlt : iteration < options.limit
  · rw [evaluateAt_of_lt_limit host hlt]
    refine Context.result_eq_ok.trans ?_
    simp only [hlt, true_and]
  · rw [evaluateAt_of_limit_le host (UInt8.not_lt.1 hlt)]
    simp [hlt]

end
end RuleGraph

import RuleGraph.Proofs.Run.Correspondence
import RuleGraph.Proofs.Run.Levels
/-!
# Decisions without external nodes

A decision that has neither custom nodes nor decision nodes is evaluated without the host. It comes
to the same result, trace or failure whatever components and decisions the host has and however
deep evaluations may go.
-/
namespace RuleGraph

def effectless (m : Type → Type) [Monad m] [LawfulMonad m] : Correspondence m Id where
  Holds x y := x = pure y.run
  pure _ := rfl
  bind := by
    rintro α β _ y f g rfl hfg
    rw [pure_bind]
    exact hfg y.run

/-- What a node comes to by itself: a custom node or decision node has nothing to call on. -/
def Step.aloneOutcome (step : Step) (input : Value) : Id (Except RunError Outcome) :=
  step.outcome .none (fun _ _ => pure (.error (.depthExceeded 0))) 0 input

theorem Step.outcome_eq_alone {m : Type → Type} [Monad m] {step : Step}
    (h : step.program.isExternal = false) (host : Host m)
    (nested : Decision → Value → m (Except RunError Result)) (iteration : UInt8) (input : Value) :
    step.outcome host nested iteration input = pure (step.aloneOutcome input).run := by
  unfold aloneOutcome outcome outcomeBy
  cases hprogram : step.program with
  | custom component config =>
    rw [hprogram] at h
    cases h
  | decision key =>
    rw [hprogram] at h
    cases h
  | _ => rfl

section
variable [Clock] {m : Type → Type} [Monad m] [LawfulMonad m]

namespace Context
variable (outcome : Step → Value → m (Except RunError Outcome)) (options : Options)
  (iteration : UInt8)

theorem advance_map_placedAt (c : Context) (position : Nat) (step : Step) :
    (c.placedAt options iteration).advance outcome position step =
      (fun r => (r.1.placedAt options iteration, r.2)) <$> c.advance outcome position step := by
  unfold advance advanceHistory
  rw [start_placedAt]
  cases c.start position with
  | error fault => simp
  | ok begun =>
    dsimp only [map_ok]
    rw [inputOf_placedAt]
    cases begun.inputOf step with
    | error fault => simp
    | ok input =>
      simp only [bind_assoc, map_bind]
      congr 1
      funext r
      cases r with
      | error e =>
        simp only [pure_bind, map_pure, History.ending_mk]
        rfl
      | ok o =>
        have hrecord : (begun.placedAt options iteration).record (step.visit position input o) =
            (begun.record (step.visit position input o)).placedAt options iteration := rfl
        dsimp only
        rw [hrecord, complete_placedAt]
        cases (begun.record (step.visit position input o)).complete position o.output <;> simp

theorem run_map_placedAt (c : Context) (position : Nat) (steps : List Step) :
    (c.placedAt options iteration).run outcome position steps =
      (fun r => (r.1.placedAt options iteration, r.2)) <$> c.run outcome position steps := by
  induction steps generalizing c position with
  | nil =>
    rw [run, run, map_pure]
  | cons step rest ih =>
    rw [run, run, advance_map_placedAt, bind_map_left, map_bind]
    congr 1
    funext r
    obtain ⟨after, failure⟩ := r
    cases failure with
    | some e =>
      dsimp only
      rw [map_pure]
    | none => exact ih after (position + 1)

end Context

namespace Decision

def finish (d : Decision) (c : Context) : Option RunError → Except RunError Result
  | some e => .error e
  | none => .ok (c.result d)

variable {d : Decision}

omit [Clock] in
theorem finish_placedAt (c : Context) (options : Options) (iteration : UInt8)
    (failure : Option RunError) :
    d.finish (c.placedAt options iteration) failure = d.finish c failure := by
  cases failure <;> rfl

/-- Below the limit a decision without external nodes is one run of what its nodes come to by
themselves. -/
theorem evaluateAt_eq_run (h : d.hasExternal = false) (host : Host m) {options : Options}
    {iteration : UInt8} (hlt : iteration < options.limit) (input : Value) :
    let alone := ((Context.initial input iteration options d.steps.length).run
      Step.aloneOutcome 0 d.steps).run
    d.evaluateAt host options iteration input = pure (d.finish alone.1 alone.2) := by
  have hsteps : ∀ step ∈ d.steps, ∀ input, (effectless m).Holds
      (step.outcome host (evaluateAt host options (deeper iteration)) iteration input)
      (step.aloneOutcome input) := by
    intro step hstep input
    rw [hasExternal, List.any_eq_false] at h
    exact Step.outcome_eq_alone (by simpa using h step hstep) host _ iteration input
  have hrun := Correspondence.holds_run hsteps
    (Context.initial input iteration options d.steps.length) 0
  rw [evaluateAt_of_lt_limit host hlt]
  dsimp only
  rw [hrun, pure_bind]
  generalize Id.run _ = finished
  obtain ⟨after, failure⟩ := finished
  cases failure <;> rfl

/-- A decision without external nodes comes to what it comes to with nothing to call on and the
least limit, and has no other effect. -/
theorem evaluate_of_no_external (h : d.hasExternal = false) (host : Host m) (trace : Bool)
    (maxDepth : UInt8) (input : Value) :
    d.evaluate host ⟨trace, maxDepth⟩ input =
      pure (d.evaluate (.none : Host Id) ⟨trace, 0⟩ input).run := by
  have hlimit (maxDepth : UInt8) : 0 < (Options.mk trace maxDepth).limit :=
    UInt8.pos_iff_ne_zero.2 (Options.limit_ne_zero _)
  have hinitial : Context.initial input 0 ⟨trace, maxDepth⟩ d.steps.length =
      (Context.initial input 0 ⟨trace, 0⟩ d.steps.length).placedAt ⟨trace, maxDepth⟩ 0 := rfl
  rw [evaluate, evaluate, evaluateAt_eq_run h host (hlimit maxDepth),
    evaluateAt_eq_run h .none (hlimit 0), hinitial, Context.run_map_placedAt]
  exact congrArg pure (finish_placedAt _ _ _ _)

end Decision
end

namespace Decision

/-- The tier of a customer is found without a look at the host, which counts how often it is asked,
and at any depth. Without a tier evaluation fails in the same way everywhere. -/
theorem tierDecision_of_no_external :
    tierDecision.hasExternal = false ∧
    let host := passingHost askingDecision
    let gold := Value.object [("tier", .string "gold")]
    ∃ entries, ((tierDecision.evaluate host ⟨true, 9⟩ gold).run 5).run =
        (.ok ⟨.string "gold", some entries⟩, 5) ∧
      ((tierDecision.evaluate (.none : Host (StateM Nat)) ⟨true, 1⟩ gold).run 5).run =
        (.ok ⟨.string "gold", some entries⟩, 5) ∧
      ((tierDecision.evaluate host ⟨false, 9⟩ .empty).run 5).run =
        (.error (.inNode "tier" (.eval (.undefined "tier"))), 5) := by
  have h : tierDecision.hasExternal = false := rfl
  refine ⟨h, ?_⟩
  intro host gold
  have hrun : ∃ entries, (tierDecision.evaluate (.none : Host Id) ⟨true, 0⟩ gold).run =
      .ok ⟨.string "gold", some entries⟩ := ⟨_, rfl⟩
  obtain ⟨entries, hrun⟩ := hrun
  refine ⟨entries, ?_, ?_, ?_⟩
  · rw [evaluate_of_no_external h host true 9 gold, hrun]
    rfl
  · rw [evaluate_of_no_external h (.none : Host (StateM Nat)) true 1 gold, hrun]
    rfl
  · rw [evaluate_of_no_external h host false 9 .empty]
    rfl

end Decision

end RuleGraph

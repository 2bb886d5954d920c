import RuleGraph.Run.Evaluate
/-!
# Evaluations that correspond

An evaluation does the same in one monad as in another if looking up decisions does. What "the
same" means is left open: any relation will do that sequencing keeps.
-/
namespace RuleGraph

/-- How computations of two monads correspond that come to the same values. -/
structure Correspondence (m n : Type → Type) [Monad m] [Monad n] where
  Holds : {α : Type} → m α → n α → Prop
  pure : ∀ {α : Type} (a : α), Holds (pure a) (pure a)
  bind : ∀ {α β : Type} {x : m α} {y : n α} {f : α → m β} {g : α → n β},
    Holds x y → (∀ a, Holds (f a) (g a)) → Holds (x >>= f) (y >>= g)

namespace Correspondence
variable {m n : Type → Type} [Monad m] [Monad n] (R : Correspondence m n)

/-- Hosts with the same components, for which decisions are looked up in corresponding ways. -/
structure Hosts (host : Host m) (host' : Host n) : Prop where
  handler : host.handler = host'.handler
  resolver : Option.Rel (fun resolve resolve' => ∀ key, R.Holds (resolve key) (resolve' key))
    host.resolver host'.resolver

theorem holds_mapM {α β : Type} {f : α → m β} {g : α → n β} (h : ∀ a, R.Holds (f a) (g a))
    (items : List α) [LawfulMonad m] [LawfulMonad n] :
    R.Holds (items.mapM f) (items.mapM g) := by
  induction items with
  | nil => exact R.pure []
  | cons a rest ih =>
    rw [List.mapM_cons, List.mapM_cons]
    exact R.bind (h a) fun b => R.bind ih fun bs => R.pure (b :: bs)

/-- Computations that come to the same value if they start in states that are related, and leave
such states. -/
def onStates {σ τ : Type} (related : σ → τ → Prop) : Correspondence (StateM σ) (StateM τ) where
  Holds x y := ∀ s t, related s t →
    (x.run s).run.1 = (y.run t).run.1 ∧ related (x.run s).run.2 (y.run t).run.2
  pure _ := fun _ _ h => ⟨rfl, h⟩
  bind := by
    intro α β x y f g h hf s t hst
    obtain ⟨hvalue, hstates⟩ := h s t hst
    simp only [StateT.run_bind, Id.run_bind, hvalue]
    exact hf _ _ _ hstates

variable {R} {host : Host m} {host' : Host n}

theorem holds_decisionOutcome (hhost : R.Hosts host host')
    {nested : Decision → Value → m (Except RunError Result)}
    {nested' : Decision → Value → n (Except RunError Result)}
    (hnested : ∀ child input, R.Holds (nested child input) (nested' child input)) (key : String)
    (input : Value) :
    R.Holds (decisionOutcome host.resolver nested key input)
      (decisionOutcome host'.resolver nested' key input) := by
  have hresolver := hhost.resolver
  generalize host.resolver = resolver at hresolver ⊢
  generalize host'.resolver = resolver' at hresolver ⊢
  cases hresolver with
  | none => exact R.pure _
  | some hresolve =>
    refine R.bind (hresolve key) fun found => ?_
    cases found with
    | error e => exact R.pure _
    | ok child => exact R.bind (hnested child input) fun r => R.pure _

theorem holds_outcomeBy {ask : Request → m (Except RunError Outcome)}
    {ask' : Request → n (Except RunError Outcome)}
    {descend : String → Value → m (Except RunError Outcome)}
    {descend' : String → Value → n (Except RunError Outcome)} {iteration : UInt8}
    (hask : ∀ node input, R.Holds (ask ⟨node, input, iteration⟩) (ask' ⟨node, input, iteration⟩))
    (hdescend : ∀ key input, R.Holds (descend key input) (descend' key input)) (step : Step)
    (input : Value) :
    R.Holds (step.outcomeBy ask descend iteration input)
      (step.outcomeBy ask' descend' iteration input) := by
  unfold Step.outcomeBy
  cases step.program with
  | custom component config => exact hask _ input
  | decision key => exact hdescend key input
  | _ => exact R.pure _

theorem holds_outcome (hhost : R.Hosts host host')
    {nested : Decision → Value → m (Except RunError Result)}
    {nested' : Decision → Value → n (Except RunError Result)}
    (hnested : ∀ child input, R.Holds (nested child input) (nested' child input))
    (iteration : UInt8) (step : Step) (input : Value) :
    R.Holds (step.outcome host nested iteration input)
      (step.outcome host' nested' iteration input) := by
  refine holds_outcomeBy (fun node input => ?_) (holds_decisionOutcome hhost hnested) step input
  rw [hhost.handler]
  cases host'.handler with
  | none => exact R.pure _
  | some handle => exact R.bind (R.pure _) fun r => R.pure _

variable [Clock]

section
variable {outcome : Step → Value → m (Except RunError Outcome)}
  {outcome' : Step → Value → n (Except RunError Outcome)}

theorem holds_advance {step : Step}
    (h : ∀ input, R.Holds (outcome step input) (outcome' step input)) (c : Context)
    (position : Nat) :
    R.Holds (c.advance outcome position step) (c.advance outcome' position step) := by
  refine R.bind ?_ fun h => R.pure h.ending
  unfold Context.advanceHistory
  cases c.start position with
  | error fault => exact R.pure _
  | ok begun =>
    dsimp only
    cases begun.inputOf step with
    | error fault => exact R.pure _
    | ok input =>
      refine R.bind (h input) fun r => ?_
      cases r with
      | error e => exact R.pure _
      | ok o =>
        dsimp only
        cases (begun.record (step.visit position input o)).complete position o.output <;>
          exact R.pure _

theorem holds_run {steps : List Step}
    (h : ∀ step ∈ steps, ∀ input, R.Holds (outcome step input) (outcome' step input))
    (c : Context) (position : Nat) :
    R.Holds (c.run outcome position steps) (c.run outcome' position steps) := by
  induction steps generalizing c position with
  | nil => exact R.pure _
  | cons step rest ih =>
    rw [List.forall_mem_cons] at h
    refine R.bind (holds_advance h.1 c position) fun r => ?_
    obtain ⟨after, failure⟩ := r
    cases failure with
    | some e => exact R.pure _
    | none => exact ih h.2 after (position + 1)

end

theorem holds_evaluateWithin (hhost : R.Hosts host host') (options : Options) (levels : Nat)
    (iteration : UInt8) (d : Decision) (input : Value) :
    R.Holds (d.evaluateWithin host options levels iteration input)
      (d.evaluateWithin host' options levels iteration input) := by
  induction levels generalizing iteration d input with
  | zero => exact R.pure _
  | succ levels ih =>
    have houtcome := holds_outcome hhost (ih (deeper iteration)) iteration
    refine R.bind (holds_run (fun step _ => houtcome step) _ 0) fun r => ?_
    obtain ⟨after, failure⟩ := r
    cases failure <;> exact R.pure _

theorem holds_evaluate (hhost : R.Hosts host host') (options : Options) (d : Decision)
    (input : Value) :
    R.Holds (d.evaluate host options input) (d.evaluate host' options input) :=
  holds_evaluateWithin hhost options _ 0 d input

end Correspondence

end RuleGraph

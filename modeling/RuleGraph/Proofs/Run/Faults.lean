import RuleGraph.Proofs.Decision.WellFormed
import RuleGraph.Proofs.Run.History
/-!
# Evaluations without faults

No evaluation of a compiled decision takes a step that the progress of its nodes does not allow, if
the host comes with compiled decisions and brings no such failure along. Looking up a decision may
change what the host keeps.
-/
namespace RuleGraph

/-- Whether an error comes down to a step that the progress of the nodes does not allow. -/
def RunError.IsFault (e : RunError) : Prop :=
  ∃ fault, e.root = .progress fault

theorem RunError.root_within (node : String) (e : RunError) : (e.within node).root = e.root := by
  cases e with
  | inNode inner cause =>
    unfold within
    dsimp only
    split <;> rfl
  | _ => rfl

def Decision.IsCompiled (p : Decision) : Prop :=
  ∃ (c : Compiler) (d : Document) (key : Option String), c.compile d key = .ok p

section
variable {σ α : Type} (inv : σ → Prop)

/-- A computation that keeps an invariant and does not fail with a fault. -/
def Faultless (x : StateM σ (Except RunError α)) : Prop :=
  ∀ s r s', inv s → (x.run s).run = (r, s') → inv s' ∧ ∀ e, r = .error e → ¬e.IsFault

/-- A host whose decisions are compiled as long as an invariant holds, which looking them up keeps,
and that brings no fault along. -/
def Host.Serves (host : Host (StateM σ)) : Prop :=
  ∀ resolve, host.resolver = some resolve → ∀ key,
    Faultless inv (resolve key) ∧
    ∀ s child s', inv s → ((resolve key).run s).run = (.ok child, s') → child.IsCompiled

variable {inv}

theorem faultless_pure {r : Except RunError α} (h : ∀ e, r = .error e → ¬e.IsFault) :
    Faultless inv (pure r) := by
  rintro s _ _ hs ⟨⟩
  exact ⟨hs, h⟩

theorem faultless_mapError {ε : Type} {f : ε → RunError} (hf : ∀ e, ¬(f e).IsFault)
    (x : Except ε α) : Faultless inv (pure (x.mapError f)) := by
  apply faultless_pure
  intro e he
  obtain ⟨cause, -, rfl⟩ := mapError_eq_error.1 he
  exact hf cause

theorem Faultless.map {β : Type} {x : StateM σ (Except RunError α)} (h : Faultless inv x)
    (f : α → β) : Faultless inv (do return (← x).map f) := by
  intro s r s' hs hrun
  cases hx : (x.run s).run with
  | mk a t =>
    obtain ⟨ht, ha⟩ := h s a t hs hx
    have hr : (a.map f, t) = (r, s') := by
      simpa [hx] using hrun
    cases hr
    refine ⟨ht, fun e he => ha e ?_⟩
    cases a with
    | error e' =>
      cases he
      rfl
    | ok a => cases he

theorem decisionOutcome_faultless {host : Host (StateM σ)} (hhost : host.Serves inv)
    {nested : Decision → Value → StateM σ (Except RunError Result)}
    (hnested : ∀ child : Decision, child.IsCompiled → ∀ input, Faultless inv (nested child input))
    (key : String) (input : Value) :
    Faultless inv (decisionOutcome host.resolver nested key input) := by
  cases hresolver : host.resolver with
  | none => exact faultless_pure (by rintro _ ⟨⟩ ⟨_, ⟨⟩⟩)
  | some resolve =>
    obtain ⟨hfaultless, hcompiled⟩ := hhost resolve hresolver key
    intro s r s' hs hrun
    cases hfound : ((resolve key).run s).run with
    | mk found t =>
      obtain ⟨ht, herror⟩ := hfaultless s found t hs hfound
      cases found with
      | error e =>
        have hr : (Except.error e, t) = (r, s') := by
          simpa [decisionOutcome, hfound] using hrun
        cases hr
        refine ⟨ht, ?_⟩
        rintro _ ⟨⟩
        exact herror e rfl
      | ok child =>
        have hchild := hnested child (hcompiled s child t hs hfound) input
        refine hchild.map Result.outcome t r s' ht ?_
        simpa [decisionOutcome, hfound] using hrun

theorem Step.outcome_faultless {host : Host (StateM σ)} (hhost : host.Serves inv)
    {nested : Decision → Value → StateM σ (Except RunError Result)}
    (hnested : ∀ child : Decision, child.IsCompiled → ∀ input, Faultless inv (nested child input))
    (iteration : UInt8) (step : Step) (input : Value) :
    Faultless inv (step.outcome host nested iteration input) := by
  have heval (e : EvalError) : ¬(RunError.eval e).IsFault := by rintro ⟨_, ⟨⟩⟩
  unfold outcome outcomeBy
  cases step.program with
  | input schema => exact faultless_pure nofun
  | output => exact faultless_pure nofun
  | table t => exact faultless_mapError heval _
  | expressions entries passes => exact faultless_mapError heval _
  | function source => exact faultless_mapError heval _
  | custom component config =>
    cases hhandler : host.handler with
    | none => exact faultless_pure (by rintro _ ⟨⟩ ⟨_, ⟨⟩⟩)
    | some handle => exact faultless_mapError (by rintro _ ⟨_, ⟨⟩⟩) _
  | decision key => exact decisionOutcome_faultless hhost hnested key input

/-- Nodes whose sources stand before them fail with what one of them failed with. -/
theorem Context.Underway.faultless [Clock]
    {outcome : Step → Value → StateM σ (Except RunError Outcome)}
    (houtcome : ∀ step input, Faultless inv (outcome step input)) {c : Context} {input : Value}
    {outputs : List Value} {steps : List Step} (h : c.Underway input outputs steps.length)
    (hsources : SourcesBefore outputs.length steps) {s s' : σ} (hs : inv s)
    {history : History}
    (hrun : ((c.runHistory outcome outputs.length steps).run s).run = (history, s')) :
    inv s' ∧ ∀ e, history.failure = some e → ¬e.IsFault := by
  induction steps generalizing c outputs s s' history with
  | nil =>
    cases hrun
    exact ⟨hs, nofun⟩
  | cons step rest ih =>
    obtain ⟨e, t, ho, hfailed⟩ | ⟨o, t, ho, hdone⟩ :=
      h.runHistory_cons_run outcome hsources.head rest s
    · obtain ⟨ht, herror⟩ := houtcome _ _ s _ t hs ho
      cases hrun.symm.trans hfailed
      refine ⟨ht, ?_⟩
      rintro _ ⟨⟩
      rw [RunError.IsFault, RunError.root_within]
      exact herror e rfl
    · obtain ⟨ht, -⟩ := houtcome _ _ s _ t hs ho
      have hlength : (outputs ++ [o.output]).length = outputs.length + 1 := by simp
      have hnext := ih (h.finish step (step.inputFrom input outputs) o)
      rw [hlength] at hnext
      cases hmore : (((c.finish outputs.length step (step.inputFrom input outputs) o).runHistory
          outcome (outputs.length + 1) rest).run t).run with
      | mk more t' =>
        have hmore' := hnext hsources.tail ht hmore
        rw [hmore] at hdone
        cases hrun.symm.trans hdone
        exact hmore'

namespace Decision
variable [Clock] {host : Host (StateM σ)} (hhost : host.Serves inv) {options : Options}
  {iteration : UInt8} {p : Decision} (hp : p.IsCompiled)
include hhost hp

theorem evaluateWithin_faultless (levels : Nat) (input : Value) :
    Faultless inv (p.evaluateWithin host options levels iteration input) := by
  -- Decision nodes evaluate what the host gives them with one level less.
  induction levels generalizing iteration p input with
  | zero => exact faultless_pure (by rintro _ ⟨⟩ ⟨_, ⟨⟩⟩)
  | succ levels ih =>
    obtain ⟨c, d, key, hcompile⟩ := hp
    have hwell := Compiler.wellFormed_of_compile hcompile
    intro s r s' hs hrun
    rw [evaluateWithin_succ] at hrun
    cases hhistory : ((p.history (Step.outcome host (evaluateWithin host options levels
        (deeper iteration)) iteration) options iteration input).run s).run with
    | mk history t =>
      obtain ⟨ht, hfailure⟩ := (Context.underway_initial input iteration options _).faultless
        (Step.outcome_faultless hhost (fun child hchild => ih hchild) iteration)
        hwell.sourcesBefore hs hhistory
      have hr : (history.result p, t) = (r, s') := by
        simpa [hhistory] using hrun
      cases hr
      refine ⟨ht, fun e he => ?_⟩
      unfold History.result at he
      split at he
      · cases he
        exact hfailure e ‹_›
      · cases he

end Decision

end
end RuleGraph

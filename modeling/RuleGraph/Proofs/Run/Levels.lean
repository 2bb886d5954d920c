import RuleGraph.Proofs.Run.Faults
import RuleGraph.Proofs.Run.Recording
/-!
# The levels that are left

How deep a decision lies below the one that was asked for and how deep evaluations may go count only
by their difference. With at least as many levels left an evaluation comes to the same result, trace
or failure, unless it was the limit that made it fail.
-/
namespace RuleGraph

theorem Options.toNat_limit (o : Options) : o.limit.toNat = max o.maxDepth.toNat 1 := by
  unfold limit
  split
  · simp_all
  · have hne : o.maxDepth.toNat ≠ 0 := fun h => ‹¬o.maxDepth = 0› (UInt8.toNat_inj.1 h)
    omega

/-- Whether an error comes down to the depth limit. -/
def RunError.IsCutOff (e : RunError) : Prop :=
  ∃ limit, e.root = .depthExceeded limit

/-- A result, or a failure that does not come down to the depth limit. -/
def WithinDepth {α : Type} (r : Except RunError α) : Prop :=
  ∀ e, r = .error e → ¬e.IsCutOff

/-- A host whose components do the same at every depth. -/
def Host.IgnoresDepth {m : Type → Type} (host : Host m) : Prop :=
  ∀ handle, host.handler = some handle → ∀ (request : Request) (iteration : UInt8),
    handle { request with iteration } = handle request

section
variable {σ α β : Type}

/-- What the first computation comes to, the second comes to as well, unless it was cut off. -/
def Reproduces (x y : StateM σ (Except RunError α)) : Prop :=
  ∀ s r s', (x.run s).run = (r, s') → WithinDepth r → (y.run s).run = (r, s')

variable {x y : StateM σ (Except RunError α)}

theorem Reproduces.refl (x : StateM σ (Except RunError α)) : Reproduces x x :=
  fun _ _ _ hrun _ => hrun

theorem Reproduces.map (h : Reproduces x y) (f : α → β) :
    Reproduces (do return (← x).map f) (do return (← y).map f) := by
  intro s r s' hrun hr
  cases hx : (x.run s).run with
  | mk a t =>
    have hmapped : (a.map f, t) = (r, s') := by
      simpa [hx] using hrun
    obtain ⟨rfl, rfl⟩ := Prod.mk.inj hmapped
    have ha : WithinDepth a := by
      rintro e rfl
      exact hr e rfl
    simp [h s a _ hx ha]

theorem decisionOutcome_reproduces
    (resolver : Option (String → StateM σ (Except RunError Decision)))
    {nested nested' : Decision → Value → StateM σ (Except RunError Result)}
    (hnested : ∀ child input, Reproduces (nested child input) (nested' child input)) (key : String)
    (input : Value) :
    Reproduces (decisionOutcome resolver nested key input)
      (decisionOutcome resolver nested' key input) := by
  cases resolver with
  | none => exact .refl _
  | some resolve =>
    intro s r s' hrun hr
    cases hfound : ((resolve key).run s).run with
    | mk found t =>
      cases found with
      | error e =>
        simp only [decisionOutcome, StateT.run_bind, Id.run_bind, hfound] at hrun ⊢
        exact hrun
      | ok child =>
        simp only [decisionOutcome, StateT.run_bind, Id.run_bind, hfound] at hrun ⊢
        exact (hnested child input).map Result.outcome t r s' hrun hr

theorem Step.outcome_reproduces {host : Host (StateM σ)} (hhost : host.IgnoresDepth)
    {nested nested' : Decision → Value → StateM σ (Except RunError Result)}
    (hnested : ∀ child input, Reproduces (nested child input) (nested' child input))
    (iteration iteration' : UInt8) (step : Step) (input : Value) :
    Reproduces (step.outcome host nested iteration input)
      (step.outcome host nested' iteration' input) := by
  unfold outcome outcomeBy
  cases step.program with
  | decision key => exact decisionOutcome_reproduces host.resolver hnested key input
  | custom component config =>
    cases hhandler : host.handler with
    | none => exact .refl _
    | some handle =>
      have hsame :=
        hhost handle hhandler ⟨⟨step.id, step.name, component, config⟩, input, iteration⟩
        iteration'
      simp only [customOutcome, Option.map_some] at hsame ⊢
      rw [hsame]
      exact .refl _
  | _ => exact .refl _

namespace Context

def placedAt (c : Context) (options : Options) (iteration : UInt8) : Context :=
  { c with options, iteration }

variable (options : Options) (iteration : UInt8)

theorem start_placedAt (c : Context) (position : Nat) :
    (c.placedAt options iteration).start position =
      (c.start position).map (·.placedAt options iteration) := by
  unfold start
  have hstate : (c.placedAt options iteration).state? position = c.state? position := rfl
  rw [hstate]
  cases c.state? position with
  | none => rfl
  | some state => cases state <;> rfl

theorem complete_placedAt (c : Context) (position : Nat) (output : Value) :
    (c.placedAt options iteration).complete position output =
      (c.complete position output).map (·.placedAt options iteration) := by
  unfold complete
  have hstate : (c.placedAt options iteration).state? position = c.state? position := rfl
  rw [hstate]
  cases c.state? position <;> rfl

theorem outputs_placedAt (c : Context) (positions : List Nat) :
    (c.placedAt options iteration).outputs positions = c.outputs positions := by
  induction positions with
  | nil => rfl
  | cons position rest ih =>
    have houtput : (c.placedAt options iteration).output? position = c.output? position := rfl
    rw [outputs, outputs, houtput, ih]

theorem inputOf_placedAt (c : Context) (step : Step) :
    (c.placedAt options iteration).inputOf step = c.inputOf step := by
  unfold inputOf nodeInput
  rw [outputs_placedAt]
  rfl

variable [Clock] {options iteration}
  {outcome outcome' : Step → Value → StateM σ (Except RunError Outcome)}
  (houtcome : ∀ step input, Reproduces (outcome step input) (outcome' step input))
  {c after : Context} {failure : Option RunError} {s s' : σ} {position : Nat}
include houtcome

theorem advance_placedAt {step : Step}
    (h : ((c.advance outcome position step).run s).run = ((after, failure), s'))
    (hfailure : ∀ e, failure = some e → ¬e.IsCutOff) :
    (((c.placedAt options iteration).advance outcome' position step).run s).run =
      ((after.placedAt options iteration, failure), s') := by
  unfold advance advanceHistory at h ⊢
  rw [start_placedAt]
  cases hstart : c.start position with
  | error fault =>
    rw [hstart] at h
    cases h
    rfl
  | ok begun =>
    simp only [hstart, map_ok, inputOf_placedAt] at h ⊢
    cases hinput : begun.inputOf step with
    | error fault =>
      rw [hinput] at h
      cases h
      rfl
    | ok input =>
      simp only [hinput, StateT.run_bind, Id.run_bind] at h ⊢
      cases ho : ((outcome step input).run s).run with
      | mk r t =>
        cases r with
        | error e =>
          rw [ho] at h
          cases h
          have hwithin : WithinDepth (.error e : Except RunError Outcome) := by
            rintro _ ⟨⟩ ⟨limit, hroot⟩
            exact hfailure _ rfl ⟨limit, by rw [RunError.root_within, hroot]⟩
          rw [houtcome step input s _ _ ho hwithin]
          rfl
        | ok o =>
          rw [ho] at h
          rw [houtcome step input s _ _ ho nofun]
          have hcomplete := complete_placedAt options iteration
            (begun.record (step.visit position input o)) position o.output
          have hrecord : (begun.placedAt options iteration).record (step.visit position input o) =
              (begun.record (step.visit position input o)).placedAt options iteration := rfl
          simp only [hrecord, hcomplete] at h ⊢
          cases hdone : (begun.record (step.visit position input o)).complete position o.output with
          | error fault =>
            rw [hdone] at h
            cases h
            rfl
          | ok done =>
            rw [hdone] at h
            cases h
            rfl

/-- Nodes that do not fail for want of levels do the same where at least as many levels are left. -/
theorem run_placedAt {steps : List Step}
    (h : ((c.run outcome position steps).run s).run = ((after, failure), s'))
    (hfailure : ∀ e, failure = some e → ¬e.IsCutOff) :
    (((c.placedAt options iteration).run outcome' position steps).run s).run =
      ((after.placedAt options iteration, failure), s') := by
  induction steps generalizing c s position with
  | nil =>
    cases h
    rfl
  | cons step rest ih =>
    rw [run] at h ⊢
    simp only [StateT.run_bind, Id.run_bind] at h ⊢
    cases hadvance : ((c.advance outcome position step).run s).run with
    | mk stepped t =>
      obtain ⟨between, failed⟩ := stepped
      rw [hadvance] at h
      cases failed with
      | some e =>
        cases h
        rw [advance_placedAt houtcome hadvance hfailure]
        rfl
      | none =>
        rw [advance_placedAt houtcome hadvance fun e he => by cases he]
        exact ih h

end Context

namespace Decision
variable [Clock] {host : Host (StateM σ)} (hhost : host.IgnoresDepth) {o o' : Options}
  (htrace : o'.trace = o.trace)
include hhost htrace

theorem evaluateWithin_reproduces {levels levels' : Nat} (hle : levels ≤ levels')
    (iteration iteration' : UInt8) (d : Decision) (input : Value) :
    Reproduces (d.evaluateWithin host o levels iteration input)
      (d.evaluateWithin host o' levels' iteration' input) := by
  induction levels generalizing levels' iteration iteration' d input with
  | zero =>
    rintro s _ _ ⟨⟩ hr
    exact absurd ⟨o.limit, rfl⟩ (hr _ rfl)
  | succ levels ih =>
    obtain ⟨levels', rfl⟩ := Nat.exists_eq_add_of_le' (Nat.le_trans (Nat.le_add_left 1 levels) hle)
    have hnested := ih (Nat.le_of_succ_le_succ hle) (deeper iteration) (deeper iteration')
    have houtcome := Step.outcome_reproduces hhost hnested iteration iteration'
    have hinitial : Context.initial input iteration' o' d.steps.length =
        (Context.initial input iteration o d.steps.length).placedAt o' iteration' := by
      simp only [Context.initial, Context.placedAt, htrace]
    intro s r s' hrun hr
    rw [evaluateWithin] at hrun ⊢
    simp only [StateT.run_bind, Id.run_bind] at hrun ⊢
    cases hnodes : (((Context.initial input iteration o d.steps.length).run
        (Step.outcome host (evaluateWithin host o levels (deeper iteration)) iteration) 0
          d.steps).run s).run with
    | mk finished t =>
      obtain ⟨after, failure⟩ := finished
      rw [hnodes] at hrun
      have hfailure : ∀ e, failure = some e → ¬e.IsCutOff := by
        rintro e rfl
        cases hrun
        exact hr e rfl
      rw [hinitial, Context.run_placedAt houtcome hnodes hfailure]
      cases failure with
      | some e => exact hrun
      | none => exact hrun

theorem evaluateAt_reproduces {iteration iteration' : UInt8}
    (hlevels : o.limit.toNat + iteration'.toNat ≤ o'.limit.toNat + iteration.toNat) (d : Decision)
    (input : Value) :
    Reproduces (d.evaluateAt host o iteration input) (d.evaluateAt host o' iteration' input) :=
  evaluateWithin_reproduces hhost htrace (by omega) iteration iteration' d input

/-- Only the levels that are left count: with at least as many an evaluation comes to the same
result or failure, unless the first one came to the limit. So a higher limit changes no result, and
the outcome of a decision node is that of its decision on its own with one level less. -/
theorem evaluateAt_of_levels_le :
    (∀ iteration iteration' : UInt8,
      o.limit.toNat + iteration'.toNat ≤ o'.limit.toNat + iteration.toNat →
      ∀ (d : Decision) (input : Value) (s : σ) (r : Except RunError Result) (s' : σ),
        ((d.evaluateAt host o iteration input).run s).run = (r, s') →
        (∀ e limit, r = .error e → e.root ≠ .depthExceeded limit) →
        ((d.evaluateAt host o' iteration' input).run s).run = (r, s')) ∧
    (o.maxDepth ≤ o'.maxDepth →
      ∀ (d : Decision) (input : Value) (s : σ) (r : Result) (s' : σ),
        ((d.evaluate host o input).run s).run = (.ok r, s') →
        ((d.evaluate host o' input).run s).run = (.ok r, s')) ∧
    ∀ (iteration : UInt8), o.limit.toNat = o'.limit.toNat + (iteration.toNat + 1) →
      ∀ (step : Step) (key : String), step.program = .decision key →
      ∀ (input : Value) (s : σ) (r : Except RunError Outcome) (s' : σ),
        (∀ e limit, r = .error e → e.root ≠ .depthExceeded limit) →
        (((step.outcome host (evaluateAt host o (deeper iteration)) iteration input).run s).run =
            (r, s') ↔
          ((decisionOutcome host.resolver (evaluate host o') key input).run s).run = (r, s')) := by
  refine ⟨?_, ?_, ?_⟩
  · intro iteration iteration' hlevels d input s r s' hrun hr
    refine evaluateAt_reproduces hhost htrace hlevels d input s r s' hrun ?_
    rintro e he ⟨limit, hroot⟩
    exact hr e limit he hroot
  · intro hdepth d input s r s' hrun
    have hmax := UInt8.le_iff_toNat_le.1 hdepth
    have hlimit : o.limit.toNat ≤ o'.limit.toNat := by
      rw [Options.toNat_limit, Options.toNat_limit]
      omega
    exact evaluateAt_reproduces hhost htrace (by simpa using hlimit) d input s _ s' hrun nofun
  · intro iteration hlevels step key hprogram input s r s' hr
    have hlt : iteration < o.limit := by
      rw [UInt8.lt_iff_toNat_lt]
      omega
    have hdeeper := toNat_deeper hlt
    have hwithin : WithinDepth r := by
      rintro e he ⟨limit, hroot⟩
      exact hr e limit he hroot
    have hnested (child : Decision) (input : Value) :
        Reproduces (child.evaluateAt host o (deeper iteration) input)
          (child.evaluate host o' input) :=
      evaluateAt_reproduces hhost htrace (by simp; omega) child input
    have hstandalone (child : Decision) (input : Value) :
        Reproduces (child.evaluate host o' input)
          (child.evaluateAt host o (deeper iteration) input) :=
      evaluateAt_reproduces hhost htrace.symm (by simp; omega) child input
    rw [Step.outcome_of_decision hprogram]
    constructor
    · intro h
      exact decisionOutcome_reproduces host.resolver hnested key input s r s' h hwithin
    · intro h
      exact decisionOutcome_reproduces host.resolver hstandalone key input s r s' h hwithin

end Decision
end

namespace Decision

/-- Gives one decision for every key, counts how often it is asked, and passes on the input of
custom nodes. -/
def passingHost (child : Decision) : Host (StateM Nat) where
  handler := some fun request => .ok (.plain request.input)
  resolver := some fun _ => do
    modify (· + 1)
    return .ok child

theorem passingHost_ignoresDepth (child : Decision) : (passingHost child).IgnoresDepth := by
  rintro _ ⟨⟩ request iteration
  rfl

theorem askingDecision_of_levels_le :
    let host := passingHost tierDecision
    let input := Value.object [("tier", .string "gold")]
    host.IgnoresDepth ∧ ∃ r,
      ((askingDecision.evaluateAt host ⟨true, 2⟩ 0 input).run 0).run = (.ok r, 1) ∧
      ((askingDecision.evaluateAt host ⟨true, 7⟩ 4 input).run 0).run = (.ok r, 1) ∧
      ((askingDecision.evaluate host ⟨true, 255⟩ input).run 0).run = (.ok r, 1) := by
  intro host input
  have hhost : host.IgnoresDepth := passingHost_ignoresDepth tierDecision
  have hrun : ∃ r, ((askingDecision.evaluateAt host ⟨true, 2⟩ 0 input).run 0).run = (.ok r, 1) :=
    ⟨_, rfl⟩
  obtain ⟨r, hr⟩ := hrun
  have hdeep := (@evaluateAt_of_levels_le _ _ _ hhost ⟨true, 2⟩ ⟨true, 7⟩ rfl).1 0 4 (by decide)
    askingDecision input 0 _ 1 hr nofun
  have hraised := (@evaluateAt_of_levels_le _ _ _ hhost ⟨true, 2⟩ ⟨true, 255⟩ rfl).2.1 (by decide)
    askingDecision input 0 r 1 hr
  exact ⟨hhost, r, hr, hdeep, hraised⟩

end Decision

end RuleGraph

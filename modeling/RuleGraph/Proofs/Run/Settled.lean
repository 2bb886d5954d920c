import RuleGraph.Proofs.Decision.WellFormed
/-!
# What an evaluation comes to

An evaluation succeeds exactly if its nodes can be given outcomes, by their ids, that agree with
each other along the edges. The result is told by these outcomes, whatever the order of the nodes.
-/
namespace RuleGraph
variable {outcome : Step → Value → Id (Except RunError Outcome)}

namespace Decision
variable {p : Decision} {input : Value} {f : String → Outcome}

/-- The input of a node, from the outcomes of nodes by their ids. -/
def inputUnder (p : Decision) (f : String → Outcome) (input : Value) (step : Step) : Value :=
  if step.program.kind = .input then input
  else .mergeAll ((p.sourceIds step).map fun id => (f id).output)

/-- Outcomes of the nodes of which each is that of its node, from the outcomes of its sources. -/
def Settled (p : Decision) (outcome : Step → Value → Id (Except RunError Outcome)) (input : Value)
    (f : String → Outcome) : Prop :=
  ∀ step ∈ p.steps, (outcome step (p.inputUnder f input step)).run = .ok (f step.id)

/-- The result of a decision, from the outcomes of its nodes. -/
def resultUnder [Clock] (p : Decision) (options : Options) (f : String → Outcome) (input : Value) :
    Result where
  value := .mergeAll (p.outputIds.map fun id => (f id).output)
  trace := if options.trace then
    some (p.steps.mapIdx fun position step =>
      (step.visit position (p.inputUnder f input step) (f step.id)).timed)
    else none

theorem filterMap_outputs (p : Decision) (f : String → Outcome) (positions : List Nat) :
    positions.filterMap ((p.steps.map fun step => (f step.id).output)[·]?) =
      (positions.filterMap fun i => (p.steps[i]?).map Step.id).map fun id => (f id).output := by
  rw [List.map_filterMap]
  congr
  funext i
  rw [List.getElem?_map, Option.map_map]
  rfl

theorem inputFrom_outputs (step : Step) :
    step.inputFrom input (p.steps.map fun step => (f step.id).output) =
      p.inputUnder f input step := by
  rw [Step.inputFrom, inputUnder, filterMap_outputs, sourceIds]

end Decision

/-- The input of a node depends on the outputs of its sources only. -/
theorem Step.inputFrom_append {step : Step} {input : Value} {outputs : List Value}
    (h : ∀ source ∈ step.sources, source < outputs.length) (later : List Value) :
    step.inputFrom input (outputs ++ later) = step.inputFrom input outputs := by
  have hsources : step.sources.filterMap ((outputs ++ later)[·]?) =
      step.sources.filterMap (outputs[·]?) :=
    List.filterMap_congr fun source hsource => List.getElem?_append_left (h source hsource)
  rw [inputFrom, inputFrom, hsources]

namespace Context
variable [Clock] {c c' : Context} {input : Value} {outputs : List Value} {left : Nat}

theorem finish_trace (c : Context) (position : Nat) (step : Step) (input : Value) (o : Outcome) :
    (c.finish position step input o).trace =
      c.trace.map (· ++ [(step.visit position input o).timed]) :=
  rfl

theorem Underway.advance_eq_none {step : Step} (h : c.Underway input outputs (left + 1))
    (hsources : ∀ source ∈ step.sources, source < outputs.length) :
    (c.advance outcome outputs.length step).run = (c', none) ↔
      ∃ o, (outcome step (step.inputFrom input outputs)).run = .ok o ∧
        c' = c.finish outputs.length step (step.inputFrom input outputs) o := by
  rw [Context.advance_eq_none, h.inputOf_begun hsources]
  constructor
  · rintro ⟨-, _, o, ⟨⟩, ho, hc'⟩
    exact ⟨o, ho, hc'⟩
  · rintro ⟨o, ho, hc'⟩
    exact ⟨h.standing.state?_length, _, o, rfl, ho, hc'⟩

theorem Underway.outcomes_of_run {steps : List Step} (h : c.Underway input outputs steps.length)
    (hsources : SourcesBefore outputs.length steps)
    (hrun : (c.run outcome outputs.length steps).run = (c', none)) :
    ∃ more : List Outcome, more.length = steps.length ∧
      ∀ (i : Nat) (step : Step) (o : Outcome), steps[i]? = some step → more[i]? = some o →
        (outcome step (step.inputFrom input (outputs ++ more.map Outcome.output))).run = .ok o := by
  induction steps generalizing c outputs with
  | nil => exact ⟨[], rfl, by simp⟩
  | cons first rest ih =>
    obtain ⟨d, hadvance, hrest⟩ := run_cons_eq_none.1 hrun
    obtain ⟨o, ho, rfl⟩ := (h.advance_eq_none hsources.head).1 hadvance
    have hlength : outputs.length + 1 = (outputs ++ [o.output]).length := by simp
    have htail := hsources.tail
    rw [hlength] at hrest htail
    obtain ⟨more, hmore, hagree⟩ := ih (h.finish first _ o) htail hrest
    refine ⟨o :: more, by simp [hmore], ?_⟩
    intro i step o' hstep ho'
    have hall : outputs ++ (o :: more).map Outcome.output =
        (outputs ++ [o.output]) ++ more.map Outcome.output := by simp
    cases i with
    | zero =>
      cases hstep
      cases ho'
      rw [Step.inputFrom_append hsources.head]
      exact ho
    | succ i =>
      rw [hall]
      exact hagree i step o' hstep ho'

theorem Underway.run_of_settled {p : Decision} {f : String → Outcome}
    (hsettled : p.Settled outcome input f) {before rest : List Step}
    (hsteps : p.steps = before ++ rest)
    (h : c.Underway input (before.map fun step => (f step.id).output) rest.length)
    (hsources : SourcesBefore before.length rest) :
    ∃ c', (c.run outcome before.length rest).run = (c', none) ∧
      c'.Underway input (p.steps.map fun step => (f step.id).output) 0 ∧
      c'.trace = c.trace.map (· ++ rest.mapIdx fun i step =>
        (step.visit (before.length + i) (p.inputUnder f input step) (f step.id)).timed) := by
  -- The nodes before the others have come to the outcomes that `f` gives them.
  induction rest generalizing c before with
  | nil =>
    refine ⟨c, rfl, ?_, ?_⟩
    · simpa [hsteps] using h
    · cases c.trace <;> simp
  | cons step rest ih =>
    have hlength : (before.map fun step => (f step.id).output).length = before.length := by simp
    have hhead := hsources.head
    rw [← hlength] at hhead
    have hinput : step.inputFrom input (before.map fun step => (f step.id).output) =
        p.inputUnder f input step := by
      rw [← Decision.inputFrom_outputs, hsteps, List.map_append, Step.inputFrom_append hhead]
    have ho := hsettled step (by simp [hsteps])
    -- Its sources stand before it, so its input is the one that all outcomes together give.
    have hadvance := (h.advance_eq_none hhead).2 ⟨f step.id, hinput ▸ ho, rfl⟩
    have hfinish := h.finish step (p.inputUnder f input step) (f step.id)
    rw [hinput, hlength] at hadvance
    rw [hlength] at hfinish
    have hsteps' : p.steps = (before ++ [step]) ++ rest := by simpa using hsteps
    obtain ⟨c', hrun, hc', htrace⟩ :=
      ih hsteps' (by simpa using hfinish) (by simpa using hsources.tail)
    rw [List.length_append, List.length_singleton] at hrun htrace
    refine ⟨c', run_cons_eq_none.2 ⟨_, hadvance, hrun⟩, hc', ?_⟩
    rw [htrace, finish_trace, Option.map_map, List.mapIdx_cons]
    congr
    funext entries
    simp [Nat.add_assoc, Nat.add_comm 1]

end Context

namespace Decision
variable {p : Decision} {input : Value} {f : String → Outcome}

def outcomeOf (p : Decision) (outcomes : List Outcome) (id : String) : Outcome :=
  (outcomes[(p.steps.map Step.id).idxOf id]?).getD (.plain .null)

theorem map_outcomeOf (hp : p.WellFormed) {outcomes : List Outcome}
    (hlength : outcomes.length = p.steps.length) :
    p.steps.map (fun step => p.outcomeOf outcomes step.id) = outcomes := by
  apply List.ext_getElem (by simp [hlength])
  intro i hi ho
  have hlt : i < (p.steps.map Step.id).length := by simpa using hi
  have hindex := hp.distinct.idxOf_getElem i hlt
  rw [List.getElem_map] at hindex
  rw [List.getElem_map, outcomeOf, hindex, List.getElem?_eq_getElem ho, Option.getD_some]

section
variable [Clock] (hp : p.WellFormed) {options : Options} {iteration : UInt8}
include hp

theorem run_of_settled (hf : p.Settled outcome input f) :
    ∃ c, ((Context.initial input iteration options p.steps.length).run outcome 0 p.steps).run =
      (c, none) ∧ c.result p = p.resultUnder options f input := by
  have hstart : (Context.initial input iteration options p.steps.length).Underway input
      (([] : List Step).map fun step => (f step.id).output) p.steps.length :=
    Context.underway_initial ..
  obtain ⟨c, hrun, hc, htrace⟩ := hstart.run_of_settled hf (List.nil_append _).symm
    hp.sourcesBefore
  refine ⟨c, hrun, ?_⟩
  rw [Context.result, Context.mergedOutputs, funext hc.output?, filterMap_outputs, htrace,
    resultUnder, outputIds]
  congr
  unfold Context.initial
  cases options.trace <;> simp

theorem exists_settled_of_run {c : Context}
    (hrun : ((Context.initial input iteration options p.steps.length).run outcome 0 p.steps).run =
      (c, none)) : ∃ f, p.Settled outcome input f := by
  obtain ⟨outcomes, hlength, hagree⟩ := (Context.underway_initial input iteration options
    p.steps.length).outcomes_of_run hp.sourcesBefore hrun
  have houtcomes := map_outcomeOf hp hlength
  refine ⟨p.outcomeOf outcomes, fun step hstep => ?_⟩
  obtain ⟨i, hi⟩ := List.getElem?_of_mem hstep
  have ho : outcomes[i]? = some (p.outcomeOf outcomes step.id) := by
    conv_lhs => rw [← houtcomes]
    rw [List.getElem?_map, hi]
    rfl
  have houtputs : outcomes.map Outcome.output =
      p.steps.map fun step => (p.outcomeOf outcomes step.id).output := by
    conv_lhs => rw [← houtcomes, List.map_map]
    rfl
  have hstep' := hagree i step _ hi ho
  rwa [List.nil_append, houtputs, inputFrom_outputs] at hstep'

/-- An evaluation succeeds exactly if there is a level left and its nodes have outcomes that agree
with each other. These tell its result. -/
theorem evaluateAt_eq_ok_iff_settled {host : Host Id} {r : Result} :
    (p.evaluateAt host options iteration input).run = .ok r ↔
      iteration < options.limit ∧
        ∃ f, p.Settled (Step.outcome host (evaluateAt host options (deeper iteration)) iteration)
          input f ∧ r = p.resultUnder options f input := by
  rw [evaluateAt_eq_ok]
  refine and_congr_right fun _ => ⟨?_, ?_⟩
  · rintro ⟨c, hrun, rfl⟩
    obtain ⟨f, hf⟩ := exists_settled_of_run hp hrun
    obtain ⟨c', hrun', hresult⟩ := run_of_settled hp hf
    cases hrun.symm.trans hrun'
    exact ⟨f, hf, hresult⟩
  · rintro ⟨f, hf, rfl⟩
    obtain ⟨c, hrun, hresult⟩ := run_of_settled hp hf
    exact ⟨c, hrun, hresult.symm⟩

end
end Decision
end RuleGraph

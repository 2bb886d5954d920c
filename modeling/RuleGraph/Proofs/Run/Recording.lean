import RuleGraph.Proofs.Run.Underway
/-!
# What a trace tells

An evaluation gives the same result whether or not nodes are recorded. The entries of a recorded one
tell how each node came to its output from those of the nodes before it, in nested decisions too.
-/
namespace RuleGraph

def Result.untraced (r : Result) : Result :=
  { r with trace := none }

namespace Context

def untraced (c : Context) : Context :=
  { c with options := { c.options with trace := false }, trace := none }

@[simp] theorem untraced_set (c : Context) (position : Nat) (state : Progress) :
    (c.set position state).untraced = c.untraced.set position state := rfl

@[simp] theorem untraced_record [Clock] (c : Context) (visit : Visit) :
    (c.record visit).untraced = c.untraced := rfl

@[simp] theorem record_untraced [Clock] (c : Context) (visit : Visit) :
    c.untraced.record visit = c.untraced := rfl

theorem start_untraced (c : Context) (position : Nat) :
    c.untraced.start position = (c.start position).map untraced := by
  unfold start
  have hstate : c.untraced.state? position = c.state? position := rfl
  rw [hstate]
  cases c.state? position with
  | none => rfl
  | some state => cases state <;> rfl

theorem complete_untraced (c : Context) (position : Nat) (output : Value) :
    c.untraced.complete position output = (c.complete position output).map untraced := by
  unfold complete
  have hstate : c.untraced.state? position = c.state? position := rfl
  rw [hstate]
  cases c.state? position <;> rfl

theorem outputs_untraced (c : Context) (positions : List Nat) :
    c.untraced.outputs positions = c.outputs positions := by
  induction positions with
  | nil => rfl
  | cons position rest ih =>
    have houtput : c.untraced.output? position = c.output? position := rfl
    rw [outputs, outputs, houtput, ih]

theorem inputOf_untraced (c : Context) (step : Step) :
    c.untraced.inputOf step = c.inputOf step := by
  unfold inputOf nodeInput
  rw [outputs_untraced]
  rfl

section
variable [Clock] {outcome outcome' : Step → Value → Id (Except RunError Outcome)}
  (h : ∀ step input,
    (outcome' step input).run.map Outcome.output = (outcome step input).run.map Outcome.output)
include h

/-- Nodes with the same outputs leave the same state. -/
theorem advance_untraced (c : Context) (position : Nat) (step : Step) :
    (c.untraced.advance outcome' position step).run =
      Prod.map untraced id (c.advance outcome position step).run := by
  unfold advance advanceHistory
  rw [start_untraced]
  cases c.start position with
  | error fault => rfl
  | ok begun =>
    simp only [map_ok]
    rw [inputOf_untraced]
    cases begun.inputOf step with
    | error fault => rfl
    | ok input =>
      have hsame := h step input
      cases ho : (outcome step input).run with
      | error e =>
        cases ho' : (outcome' step input).run with
        | ok o' => simp [ho, ho'] at hsame
        | error e' =>
          have he : e' = e := by simpa [ho, ho'] using hsame
          simp [ho, ho', he, fail]
      | ok o =>
        cases ho' : (outcome' step input).run with
        | error e' => simp [ho, ho'] at hsame
        | ok o' =>
          have houtput : o'.output = o.output := by simpa [ho, ho'] using hsame
          have hcomplete := complete_untraced (begun.record (step.visit position input o))
            position o.output
          rw [untraced_record] at hcomplete
          simp only [Id.run_bind, ho, ho', record_untraced, houtput, hcomplete]
          cases (begun.record (step.visit position input o)).complete position o.output <;> rfl

theorem run_untraced (c : Context) (position : Nat) (steps : List Step) :
    (c.untraced.run outcome' position steps).run =
      Prod.map untraced id (c.run outcome position steps).run := by
  induction steps generalizing c position with
  | nil => rfl
  | cons step rest ih =>
    have hadvance := advance_untraced h c position step
    rw [run, run]
    simp only [Id.run_bind, hadvance]
    cases (c.advance outcome position step).run with
    | mk after failure =>
      cases failure with
      | some e => rfl
      | none => exact ih after (position + 1)

end

end Context

theorem Step.output_outcome (host : Host Id)
    {nested nested' : Decision → Value → Id (Except RunError Result)}
    (h : ∀ d input, (nested' d input).run.map Result.value = (nested d input).run.map Result.value)
    (iteration : UInt8) (step : Step) (input : Value) :
    (step.outcome host nested' iteration input).run.map Outcome.output =
      (step.outcome host nested iteration input).run.map Outcome.output := by
  unfold outcome outcomeBy
  cases step.program with
  | decision key =>
    cases hresolver : host.resolver with
    | none => rfl
    | some resolve =>
      simp only [decisionOutcome, Id.run_bind]
      cases (resolve key).run with
      | error e => rfl
      | ok d =>
        have hmap (x : Except RunError Result) :
            (x.map Result.outcome).map Outcome.output = x.map Result.value := by
          cases x <;> rfl
        exact (hmap _).trans ((h d input).trans (hmap _).symm)
  | _ => rfl

theorem Step.outcome_decision_eq_ok {host : Host Id}
    {nested : Decision → Value → Id (Except RunError Result)} {iteration : UInt8} {step : Step}
    {key : String} (hprogram : step.program = .decision key) {input : Value} {o : Outcome} :
    (step.outcome host nested iteration input).run = .ok o ↔
      ∃ resolve child r, host.resolver = some resolve ∧ (resolve key).run = .ok child ∧
        (nested child input).run = .ok r ∧ r.outcome = o := by
  rw [outcome_of_decision hprogram]
  cases hresolver : host.resolver with
  | none => simp [decisionOutcome]
  | some resolve =>
    simp only [decisionOutcome, Id.run_bind]
    cases hchild : (resolve key).run with
    | error e => simp [hchild]
    | ok child => simp [hchild, map_eq_ok]

/-- Whether nodes are recorded makes no difference to what is left without the trace. -/
theorem Decision.evaluateWithin_untraced [Clock] (host : Host Id) (depth : UInt8) (levels : Nat)
    (iteration : UInt8) (d : Decision) (input : Value) :
    (d.evaluateWithin host ⟨false, depth⟩ levels iteration input).run =
      (d.evaluateWithin host ⟨true, depth⟩ levels iteration input).run.map Result.untraced := by
  induction levels generalizing iteration d input with
  | zero => rfl
  | succ levels ih =>
    let nested := evaluateWithin host ⟨true, depth⟩ levels (deeper iteration)
    let nested' := evaluateWithin host ⟨false, depth⟩ levels (deeper iteration)
    have hnested (child : Decision) (input : Value) :
        (nested' child input).run.map Result.value = (nested child input).run.map Result.value := by
      rw [ih]
      cases (nested child input).run <;> rfl
    let c := Context.initial input iteration ⟨true, depth⟩ d.steps.length
    have hrun := Context.run_untraced (Step.output_outcome host hnested iteration) c 0 d.steps
    have hinitial :
      Context.initial input iteration ⟨false, depth⟩ d.steps.length = c.untraced := rfl
    rw [evaluateWithin, evaluateWithin]
    simp only [Id.run_bind]
    rw [hinitial, hrun]
    cases (c.run (Step.outcome host nested iteration) 0 d.steps).run with
    | mk after failure => cases failure <;> rfl

/-- An entry as a value, in its JSON form: its fields by their names. -/
def Entry.report (e : Entry) : Value :=
  .object ([
    ("id", .string e.id),
    ("input", e.input.normalized),
    ("kind", .string e.kind.tag),
    ("name", .string e.name),
    ("order", .number (Float.ofInt e.order)),
    ("output", e.output.normalized)] ++
    (e.performance.map fun time => ("performance", .string time)).toList ++
    (e.detail.map fun v => ("traceData", v.normalized)).toList)

theorem Entry.ofJson_toJson (e : Entry) : Value.ofJson e.toJson = e.report := by
  unfold toJson report
  cases e.performance <;> cases e.detail <;> rfl

theorem Entry.listToValue_eq (entries : List Entry) :
    listToValue entries = .array (entries.map report) := by
  simp [listToValue, Value.ofJson, Value.ofItems_eq_map, Function.comp_def, ofJson_toJson]

namespace Context

/-- The state of an evaluation whose first nodes are recorded and the others have not begun. -/
structure Recorded (c : Context) (input : Value) (entries : List Entry) (left : Nat) : Prop where
  input : c.input = input
  trace : c.trace = some entries
  states : c.states =
    entries.map (fun entry => Progress.done entry.output) ++ List.replicate left .pending

variable {c : Context} {input : Value} {entries : List Entry} {left : Nat}

theorem recorded_initial (input : Value) (iteration depth : UInt8) (size : Nat) :
    (initial input iteration ⟨true, depth⟩ size).Recorded input [] size :=
  ⟨rfl, rfl, rfl⟩

theorem outputs_eq_ok {positions : List Nat} {values : List Value} :
    c.outputs positions = .ok values ↔ positions.mapM c.output? = some values := by
  induction positions generalizing values with
  | nil => simp [outputs]
  | cons position rest ih =>
    rw [outputs]
    cases houtput : c.output? position with
    | none => simp [houtput]
    | some v => simp [houtput, bind_eq_ok, ih, Option.bind_eq_some_iff]

theorem Recorded.underway (h : c.Recorded input entries left) :
    c.Underway input (entries.map (·.output)) left := by
  refine ⟨h.input, ?_⟩
  rw [h.states, List.map_map]
  rfl

theorem Recorded.output?_begun (h : c.Recorded input entries (left + 1)) (source : Nat) :
    (c.set entries.length .evaluating).output? source = entries[source]?.map (·.output) := by
  have hbegun := h.underway.standing.set .evaluating
  rw [List.length_map] at hbegun
  rw [hbegun.output? rfl, List.getElem?_map]

end Context

section
variable [clock : Clock]

/-- An entry that tells what came of a node: its input, from the entries before it, and its outcome
for this input. -/
structure Entry.Tells (outcome : Step → Value → Id (Except RunError Outcome)) (input : Value)
    (before : List Entry) (position : Nat) (step : Step) (entry : Entry) : Prop where
  id : entry.id = step.id
  name : entry.name = step.name
  kind : entry.kind = step.program.kind
  order : entry.order = position
  ofCaller : step.program.kind = .input → entry.input = input
  ofSources : step.program.kind ≠ .input → ∃ values,
    step.sources.mapM (fun source => before[source]?.map (·.output)) = some values ∧
      entry.input = .mergeAll values
  outcome : (outcome step entry.input).run = .ok ⟨entry.output, entry.detail⟩
  performance : entry.performance = clock.elapsed step.id entry.input

namespace Context
variable {c c' : Context} {input : Value} {entries : List Entry} {left : Nat}
  {outcome : Step → Value → Id (Except RunError Outcome)}

theorem Recorded.finish (h : c.Recorded input entries (left + 1)) (step : Step) (nodeInput : Value)
    (o : Outcome) : (c.finish entries.length step nodeInput o).Recorded input
      (entries ++ [(step.visit entries.length nodeInput o).timed]) left := by
  refine ⟨h.input, ?_, ?_⟩
  · simp [Context.finish, record, set, h.trace]
  · have hstates := (h.underway.finish step nodeInput o).states
    rw [List.length_map] at hstates
    simpa [Step.visit, Visit.timed, Function.comp_def] using hstates

theorem Recorded.advance {step : Step} (h : c.Recorded input entries (left + 1))
    (hadvance : (c.advance outcome entries.length step).run = (c', none)) :
    ∃ entry, c'.Recorded input (entries ++ [entry]) left ∧
      entry.Tells outcome input entries entries.length step := by
  obtain ⟨-, nodeInput, o, hinput, ho, rfl⟩ := advance_eq_none.1 hadvance
  refine ⟨_, h.finish step nodeInput o, rfl, rfl, rfl, rfl, ?_, ?_, ho, rfl⟩
  · intro hkind
    rw [inputOf, if_pos hkind] at hinput
    cases hinput
    exact h.input
  · intro hkind
    rw [inputOf, if_neg hkind, Context.nodeInput] at hinput
    obtain ⟨values, hvalues, hmerge⟩ := bind_eq_ok.1 hinput
    rw [outputs_eq_ok, funext h.output?_begun] at hvalues
    cases hmerge
    exact ⟨values, hvalues, rfl⟩

theorem Recorded.run {steps : List Step} (h : c.Recorded input entries steps.length)
    (hrun : (c.run outcome entries.length steps).run = (c', none)) :
    ∃ more, c'.Recorded input (entries ++ more) 0 ∧ more.length = steps.length ∧
      ∀ (i : Nat) (step : Step) (entry : Entry), steps[i]? = some step → more[i]? = some entry →
        entry.Tells outcome input (entries ++ more.take i) (entries.length + i) step := by
  induction steps generalizing c entries with
  | nil =>
    cases hrun
    refine ⟨[], ?_, rfl, ?_⟩
    · simpa using h
    · intro i step entry hstep
      simp at hstep
  | cons first rest ih =>
    obtain ⟨d, hadvance, hrest⟩ := run_cons_eq_none.1 hrun
    obtain ⟨entry, hd, htells⟩ := h.advance hadvance
    have hposition : entries.length + 1 = (entries ++ [entry]).length := by simp
    rw [hposition] at hrest
    obtain ⟨more, hc', hlength, hmore⟩ := ih hd hrest
    refine ⟨entry :: more, ?_, ?_, ?_⟩
    · simpa using hc'
    · simp [hlength]
    · intro i step e hstep he
      cases i with
      | zero =>
        cases hstep
        cases he
        simpa using htells
      | succ i =>
        have htell := hmore i step e (by simpa using hstep) (by simpa using he)
        simpa [Nat.add_assoc, Nat.add_comm 1 i] using htell

end Context

/-- An entry that tells of a decision what the trace of its own evaluation told. -/
def Entry.Relays (host : Host Id) (options : Options) (iteration : UInt8) (key : String)
    (entry : Entry) : Prop :=
  ∃ resolve child r inner, host.resolver = some resolve ∧ (resolve key).run = .ok child ∧
    (child.evaluateAt host options (deeper iteration) entry.input).run = .ok r ∧
    entry.output = r.value ∧ r.trace = some inner ∧
    entry.detail = some (.array (inner.map Entry.report))

/-- A result that tells what came of each node of a decision, and the same of each decision that its
nodes evaluated. -/
inductive Result.Recounts (host : Host Id) (options : Options) :
    UInt8 → Decision → Value → Result → Prop
  | nodes {iteration : UInt8} {d : Decision} {input : Value} {entries : List Entry}
      (length : entries.length = d.steps.length)
      (tells : ∀ (position : Nat) (step : Step) (entry : Entry),
        d.steps[position]? = some step → entries[position]? = some entry →
        entry.Tells (Step.outcome host (Decision.evaluateAt host options (deeper iteration))
          iteration) input (entries.take position) position step)
      (relays : ∀ (position : Nat) (step : Step) (entry : Entry) (key : String),
        d.steps[position]? = some step → entries[position]? = some entry →
        step.program = .decision key → entry.Relays host options iteration key)
      (nested : ∀ (entry : Entry) (child : Decision) (r : Result), entry ∈ entries →
        (child.evaluateAt host options (deeper iteration) entry.input).run = .ok r →
        Recounts host options (deeper iteration) child entry.input r) :
      Recounts host options iteration d input
        ⟨.mergeAll (d.outputs.filterMap fun position => entries[position]?.map (·.output)),
          some entries⟩

theorem Decision.recounts_of_evaluateAt {host : Host Id} {depth iteration : UInt8} {d : Decision}
    {input : Value} {r : Result}
    (h : (d.evaluateAt host ⟨true, depth⟩ iteration input).run = .ok r) :
    r.Recounts host ⟨true, depth⟩ iteration d input := by
  generalize hlevels : (Options.limit ⟨true, depth⟩).toNat - iteration.toNat = levels
  induction levels generalizing iteration d input r with
  | zero =>
    have hlt := UInt8.lt_iff_toNat_lt.1 (evaluateAt_eq_ok.1 h).1
    omega
  | succ levels ih =>
    obtain ⟨hlt, c, hrun, rfl⟩ := evaluateAt_eq_ok.1 h
    obtain ⟨entries, hc, hlength, htells⟩ :=
      (Context.recorded_initial input iteration depth d.steps.length).run hrun
    have hnested (entry : Entry) (child : Decision) (r : Result)
        (hr : (child.evaluateAt host ⟨true, depth⟩ (deeper iteration) entry.input).run = .ok r) :
        r.Recounts host ⟨true, depth⟩ (deeper iteration) child entry.input := by
      apply ih hr
      rw [toNat_deeper hlt]
      omega
    have houtput : c.output? = fun position => entries[position]?.map (·.output) := by
      funext position
      rw [hc.underway.output?, List.getElem?_map, List.nil_append]
    rw [Context.result, Context.mergedOutputs, houtput, hc.trace]
    refine .nodes hlength ?_ ?_ fun entry child r _ => hnested entry child r
    · intro position step entry hstep hentry
      simpa using htells position step entry hstep hentry
    · intro position step entry key hstep hentry hprogram
      obtain ⟨resolve, child, r, hresolver, hchild, hr, ho⟩ :=
        (Step.outcome_decision_eq_ok hprogram).1 (htells position step entry hstep hentry).outcome
      have houtput := congrArg Outcome.output ho
      have hdetail := congrArg Outcome.detail ho
      cases hnested entry child r hr with
      | nodes =>
        exact ⟨resolve, child, _, _, hresolver, hchild, hr, houtput.symm, rfl,
          hdetail.symm.trans (congrArg some (Entry.listToValue_eq _))⟩

namespace Decision

/-- Whether its nodes are recorded changes nothing in the result or the failure of a decision but
the trace, and the trace tells how the result came about, in nested decisions too. -/
theorem evaluateAt_recorded (host : Host Id) (depth iteration : UInt8) (d : Decision)
    (input : Value) :
    (d.evaluateAt host ⟨false, depth⟩ iteration input).run =
      (d.evaluateAt host ⟨true, depth⟩ iteration input).run.map Result.untraced ∧
    ∀ r, (d.evaluateAt host ⟨true, depth⟩ iteration input).run = .ok r →
      r.Recounts host ⟨true, depth⟩ iteration d input := by
  constructor
  · have hlimit : Options.limit ⟨false, depth⟩ = Options.limit ⟨true, depth⟩ := rfl
    rw [evaluateAt, evaluateAt, hlimit]
    exact evaluateWithin_untraced host depth _ iteration d input
  · intro r hr
    exact recounts_of_evaluateAt hr

end Decision
end

namespace Decision

def tierDecision : Decision where
  steps := [
    ⟨"in", "Customer", [], .input none⟩,
    ⟨"tier", "Tier", [0], .function (.field ["tier"])⟩,
    ⟨"out", "Response", [1], .output⟩]
  outputs := [2]
  key := some "tier"
  edgeCount := 2
  version := "1"

def askingDecision : Decision where
  steps := [
    ⟨"in", "Request", [], .input none⟩,
    ⟨"ask", "Ask", [0], .decision "tier"⟩,
    ⟨"out", "Response", [1], .output⟩]
  outputs := [2]
  key := none
  edgeCount := 2
  version := "1"

/-- The trace of the nested decision is reported in the entry of the node that asks for it. -/
theorem askingDecision_recorded :
    let _clock : Clock := ⟨fun id _ => some (if id = "tier" then "2.5µs" else "1.5µs")⟩
    let host : Host Id := ⟨none, some fun _ => pure (.ok tierDecision)⟩
    let input := Value.object [("tier", .string "gold")]
    let gold := Value.string "gold"
    let reports : List Value := [
      .object [("id", .string "in"), ("input", input), ("kind", .string "inputNode"),
        ("name", .string "Customer"), ("order", .number (.ofInt 0)), ("output", input),
        ("performance", .string "1.5µs")],
      .object [("id", .string "tier"), ("input", input), ("kind", .string "functionNode"),
        ("name", .string "Tier"), ("order", .number (.ofInt 1)), ("output", gold),
        ("performance", .string "2.5µs")],
      .object [("id", .string "out"), ("input", gold), ("kind", .string "outputNode"),
        ("name", .string "Response"), ("order", .number (.ofInt 2)), ("output", gold),
        ("performance", .string "1.5µs")]]
    let entries : List Entry := [
      ⟨⟨"in", "Request", .input, 0, input, input, none⟩, some "1.5µs"⟩,
      ⟨⟨"ask", "Ask", .decision, 1, input, gold, some (.array reports)⟩, some "1.5µs"⟩,
      ⟨⟨"out", "Response", .output, 2, gold, gold, none⟩, some "1.5µs"⟩]
    (askingDecision.evaluateAt host ⟨true, 2⟩ 0 input).run = .ok ⟨gold, some entries⟩ ∧
      (askingDecision.evaluateAt host ⟨false, 2⟩ 0 input).run = .ok ⟨gold, none⟩ ∧
      Result.Recounts host ⟨true, 2⟩ 0 askingDecision input ⟨gold, some entries⟩ := by
  intro _clock host input gold reports entries
  let inner : List Entry := [
    ⟨⟨"in", "Customer", .input, 0, input, input, none⟩, some "1.5µs"⟩,
    ⟨⟨"tier", "Tier", .function, 1, input, gold, none⟩, some "2.5µs"⟩,
    ⟨⟨"out", "Response", .output, 2, gold, gold, none⟩, some "1.5µs"⟩]
  have hreports : Entry.listToValue inner = .array reports := Entry.listToValue_eq inner
  have hrun : (askingDecision.evaluateAt host ⟨true, 2⟩ 0 input).run = .ok ⟨gold, some [
      ⟨⟨"in", "Request", .input, 0, input, input, none⟩, some "1.5µs"⟩,
      ⟨⟨"ask", "Ask", .decision, 1, input, gold, some (Entry.listToValue inner)⟩, some "1.5µs"⟩,
      ⟨⟨"out", "Response", .output, 2, gold, gold, none⟩, some "1.5µs"⟩]⟩ := rfl
  rw [hreports] at hrun
  obtain ⟨huntraced, hrecounts⟩ := evaluateAt_recorded host 2 0 askingDecision input
  rw [hrun] at huntraced
  exact ⟨hrun, huntraced, hrecounts _ hrun⟩

end Decision
end RuleGraph

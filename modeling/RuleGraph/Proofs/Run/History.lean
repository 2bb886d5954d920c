import RuleGraph.Proofs.Run.Underway
/-!
# The states that a run goes through

A run with each state that it comes to. The nodes pass one after another from pending through
evaluating to their ends, and the first that fails is the last that begins.
-/
namespace RuleGraph

namespace History

def after (past : List Context) (h : History) : History :=
  { h with past := past ++ h.past }

def moments (h : History) : List Context :=
  h.past ++ [h.last]

/-- The progress of a node in each state of a run. -/
def course (h : History) (position : Nat) : List (Option Progress) :=
  h.moments.map (·.state? position)

def result (d : Decision) (h : History) : Except RunError Result :=
  match h.failure with
  | some e => .error e
  | none => .ok (h.last.result d)

@[simp] theorem moments_after (past : List Context) (h : History) :
    (h.after past).moments = past ++ h.moments := by
  simp [after, moments]

@[simp] theorem course_after (past : List Context) (h : History) (position : Nat) :
    (h.after past).course position = past.map (·.state? position) ++ h.course position := by
  simp [course]

end History

section
variable [Clock] {m : Type → Type} [Monad m]

def Context.runHistory (outcome : Step → Value → m (Except RunError Outcome)) (c : Context) :
    (position : Nat) → List Step → m History
  | _, [] => pure ⟨[], c, none⟩
  | position, step :: rest => do
    let h ← c.advanceHistory outcome position step
    match h.failure with
    | some _ => return h
    | none => return (← h.last.runHistory outcome (position + 1) rest).after h.past

/-- The states that the evaluation of a decision goes through. -/
def Decision.history (outcome : Step → Value → m (Except RunError Outcome)) (options : Options)
    (iteration : UInt8) (d : Decision) (input : Value) : m History :=
  (Context.initial input iteration options d.steps.length).runHistory outcome 0 d.steps

variable [LawfulMonad m] {outcome : Step → Value → m (Except RunError Outcome)}

theorem Context.ending_advanceHistory (c : Context) (position : Nat) (step : Step) :
    History.ending <$> c.advanceHistory outcome position step =
      c.advance outcome position step :=
  map_eq_pure_bind _ _

theorem Context.ending_runHistory (c : Context) (position : Nat) (steps : List Step) :
    History.ending <$> c.runHistory outcome position steps = c.run outcome position steps := by
  induction steps generalizing c position with
  | nil => simp [runHistory, run, History.ending]
  | cons step rest ih =>
    rw [runHistory, run, ← ending_advanceHistory, map_bind, bind_map_left]
    congr
    funext h
    cases hfailure : h.failure with
    | some e => simp [History.ending, hfailure]
    | none =>
      have hending : h.ending = (h.last, none) := by rw [History.ending, hfailure]
      simp only [hending, map_bind, map_pure]
      rw [← ih, map_eq_pure_bind]
      rfl

section
variable {host : Host m} {options : Options} {iteration : UInt8}

theorem Decision.result_history (d : Decision) (input : Value) :
    (do
      match ← (Context.initial input iteration options d.steps.length).run outcome 0 d.steps with
      | (_, some e) => return .error e
      | (c, none) => return .ok (c.result d) : m (Except RunError Result)) =
      History.result d <$> d.history outcome options iteration input := by
  rw [history, ← Context.ending_runHistory, bind_map_left, map_eq_pure_bind]
  congr
  funext h
  cases hfailure : h.failure <;> simp [History.ending, History.result, hfailure]

theorem Decision.evaluateWithin_succ (levels : Nat) (d : Decision) (input : Value) :
    d.evaluateWithin host options (levels + 1) iteration input = History.result d <$>
      d.history (Step.outcome host (evaluateWithin host options levels (deeper iteration))
        iteration) options iteration input :=
  result_history d input

/-- Below the limit an evaluation is what its history comes to. -/
theorem Decision.evaluateAt_eq_history (h : iteration < options.limit) (d : Decision)
    (input : Value) :
    d.evaluateAt host options iteration input = History.result d <$>
      d.history (Step.outcome host (evaluateAt host options (deeper iteration)) iteration)
        options iteration input :=
  (evaluateAt_of_lt_limit host h d input).trans (result_history d input)

end

namespace Context
variable {c : Context} {input : Value} {outputs : List Value} {left : Nat} {step : Step}

omit [LawfulMonad m] in
theorem Underway.advanceHistory (h : c.Underway input outputs (left + 1))
    (hsources : ∀ source ∈ step.sources, source < outputs.length) :
    c.advanceHistory outcome outputs.length step = (do
      let begun := c.set outputs.length .evaluating
      let nodeInput := step.inputFrom input outputs
      match ← outcome step nodeInput with
      | .error e =>
        return ⟨[c, begun], begun.set outputs.length .failed, some (e.within step.id)⟩
      | .ok o =>
        return ⟨[c, begun, begun.record (step.visit outputs.length nodeInput o)],
          c.finish outputs.length step nodeInput o, none⟩) := by
  have hlt : outputs.length < c.states.length := by
    rw [h.states]
    simp
  have hcomplete (o : Outcome) :
      ((c.set outputs.length .evaluating).record
        (step.visit outputs.length (step.inputFrom input outputs) o)).complete outputs.length
          o.output = .ok (c.finish outputs.length step (step.inputFrom input outputs) o) :=
    complete_of_lt (by simpa [record] using hlt) o.output
  rw [Context.advanceHistory, start_eq_ok.2 ⟨h.standing.state?_length, rfl⟩]
  simp only [h.inputOf_begun hsources, hcomplete]
  rfl

theorem Underway.runHistory_cons (h : c.Underway input outputs (left + 1))
    (hsources : ∀ source ∈ step.sources, source < outputs.length) (rest : List Step) :
    c.runHistory outcome outputs.length (step :: rest) = (do
      let begun := c.set outputs.length .evaluating
      let nodeInput := step.inputFrom input outputs
      match ← outcome step nodeInput with
      | .error e =>
        return ⟨[c, begun], begun.set outputs.length .failed, some (e.within step.id)⟩
      | .ok o =>
        let recorded := begun.record (step.visit outputs.length nodeInput o)
        let next := c.finish outputs.length step nodeInput o
        return (← next.runHistory outcome (outputs.length + 1) rest).after
          [c, begun, recorded]) := by
  rw [runHistory, h.advanceHistory hsources]
  simp only [bind_assoc]
  congr
  funext r
  cases r <;> simp

end Context
end

namespace Progress

/-- Pending at first, then evaluating and then at an end, for a while each and never again. -/
def PassesTo (final : Progress) (course : List (Option Progress)) : Prop :=
  ∃ before during after : Nat, course =
    (List.replicate (before + 1) pending ++ List.replicate (during + 1) evaluating ++
      List.replicate (after + 1) final).map some

variable {final : Progress} {course : List (Option Progress)}

theorem PassesTo.pending_cons (h : final.PassesTo course) :
    final.PassesTo (some .pending :: course) := by
  obtain ⟨before, during, after, rfl⟩ := h
  exact ⟨before + 1, during, after, rfl⟩

theorem passesTo_of_forall (hne : course ≠ []) (h : ∀ state ∈ course, state = some final) :
    final.PassesTo (some .pending :: some .evaluating :: some .evaluating :: course) := by
  obtain ⟨after, hafter⟩ := Nat.exists_eq_succ_of_ne_zero (mt List.eq_nil_of_length_eq_zero hne)
  refine ⟨0, 1, after, ?_⟩
  rw [List.eq_replicate_of_mem h, hafter]
  simp

end Progress

/-- The nodes from a position up to another are done one after the other, or one of them fails after
those before it are done and those behind it never begin. -/
structure History.Orderly (h : History) (first stop : Nat) : Prop where
  completed : h.failure = none → ∀ position, first ≤ position → position < stop →
    ∃ output, Progress.PassesTo (.done output) (h.course position)
  failed : ∀ e, h.failure = some e → ∃ failing, first ≤ failing ∧ failing < stop ∧
    (∀ position, first ≤ position → position < failing →
      ∃ output, Progress.PassesTo (.done output) (h.course position)) ∧
    Progress.PassesTo .failed (h.course failing) ∧
    ∀ position, failing < position → position < stop →
      ∀ state ∈ h.course position, state = some .pending

namespace Context
variable {σ : Type} {c : Context} {input : Value} {outputs : List Value} {left : Nat} {step : Step}

theorem Underway.runHistory_cons_run [Clock]
    (outcome : Step → Value → StateM σ (Except RunError Outcome))
    (h : c.Underway input outputs (left + 1))
    (hsources : ∀ source ∈ step.sources, source < outputs.length) (rest : List Step) (s : σ) :
    let begun := c.set outputs.length .evaluating
    let nodeInput := step.inputFrom input outputs
    (∃ e s', ((outcome step nodeInput).run s).run = (.error e, s') ∧
      ((c.runHistory outcome outputs.length (step :: rest)).run s).run =
        (⟨[c, begun], begun.set outputs.length .failed, some (e.within step.id)⟩, s')) ∨
    ∃ o s', ((outcome step nodeInput).run s).run = (.ok o, s') ∧
      ((c.runHistory outcome outputs.length (step :: rest)).run s).run =
        Prod.map (History.after [c, begun, begun.record (step.visit outputs.length nodeInput o)]) id
          (((c.finish outputs.length step nodeInput o).runHistory outcome (outputs.length + 1)
            rest).run s').run := by
  intro begun nodeInput
  rw [h.runHistory_cons hsources rest]
  cases ho : ((outcome step nodeInput).run s).run with
  | mk r s' =>
    cases r with
    | error e =>
      refine .inl ⟨e, s', rfl, ?_⟩
      simp [nodeInput, begun, ho]
    | ok o =>
      refine .inr ⟨o, s', rfl, ?_⟩
      simp [nodeInput, begun, ho]
      rfl

theorem Standing.orderly_failed (h : c.Standing outputs .pending left) (e : RunError) :
    let begun := c.set outputs.length .evaluating
    History.Orderly ⟨[c, begun], begun.set outputs.length .failed, some e⟩ outputs.length
      (outputs.length + (left + 1)) := by
  intro begun
  have hbegun : begun.Standing outputs .evaluating left := h.set .evaluating
  have hfailed := hbegun.set .failed
  refine ⟨nofun, fun _ _ => ⟨outputs.length, Nat.le_refl _, by omega, ?_, ⟨0, 0, 0, ?_⟩, ?_⟩⟩
  · intro position hle hlt
    exact absurd hlt (Nat.not_lt.2 hle)
  · simp [History.course, History.moments, h.state?_length, hbegun.state?_length,
      hfailed.state?_length]
  · intro position hlt hbound state hstate
    simpa [History.course, History.moments, h.state?_behind hlt hbound,
      hbegun.state?_behind hlt hbound, hfailed.state?_behind hlt hbound] using hstate

theorem Standing.orderly_after (h : c.Standing outputs .pending left) {recorded : Context}
    (hrecorded : recorded.Standing outputs .evaluating left) {rest : History} {v : Value}
    (hdone : ∀ state ∈ rest.course outputs.length, state = some (.done v))
    (hrest : rest.Orderly (outputs.length + 1) (outputs.length + (left + 1))) :
    (rest.after [c, c.set outputs.length .evaluating, recorded]).Orderly outputs.length
      (outputs.length + (left + 1)) := by
  have hbegun := h.set .evaluating
  have hfirst : Progress.PassesTo (.done v)
      ((rest.after [c, c.set outputs.length .evaluating, recorded]).course outputs.length) := by
    simp only [History.course_after, List.map_cons, h.state?_length, hbegun.state?_length,
      hrecorded.state?_length]
    exact Progress.passesTo_of_forall (by simp [History.course, History.moments]) hdone
  have hbehind {position : Nat} (hlt : outputs.length < position)
      (hbound : position < outputs.length + (left + 1)) :
      (rest.after [c, c.set outputs.length .evaluating, recorded]).course position =
        some .pending :: some .pending :: some .pending :: rest.course position := by
    simp [h.state?_behind hlt hbound, hbegun.state?_behind hlt hbound,
      hrecorded.state?_behind hlt hbound]
  have hlater {position : Nat} {final : Progress} (hlt : outputs.length < position)
      (hbound : position < outputs.length + (left + 1))
      (hcourse : final.PassesTo (rest.course position)) : final.PassesTo
        ((rest.after [c, c.set outputs.length .evaluating, recorded]).course position) := by
    rw [hbehind hlt hbound]
    exact hcourse.pending_cons.pending_cons.pending_cons
  have hpasses {position : Nat} (hle : outputs.length ≤ position)
      (hbound : position < outputs.length + (left + 1)) (hcourse : outputs.length < position →
        ∃ output, Progress.PassesTo (.done output) (rest.course position)) :
      ∃ output, Progress.PassesTo (.done output)
        ((rest.after [c, c.set outputs.length .evaluating, recorded]).course position) := by
    rcases Nat.eq_or_lt_of_le hle with rfl | hlt
    · exact ⟨v, hfirst⟩
    · obtain ⟨output, hdone⟩ := hcourse hlt
      exact ⟨output, hlater hlt hbound hdone⟩
  constructor
  · intro hfailure position hle hbound
    exact hpasses hle hbound fun hlt => hrest.completed hfailure position hlt hbound
  · intro e hfailure
    obtain ⟨failing, hle, hbound, hbefore, hfailing, hafter⟩ := hrest.failed e hfailure
    refine ⟨failing, by omega, hbound, ?_, hlater hle hbound hfailing, ?_⟩
    · intro position hle' hlt
      exact hpasses hle' (Nat.lt_trans hlt hbound) fun hlt' => hbefore position hlt' hlt
    · intro position hlt hbound'
      rw [hbehind (by omega) hbound']
      simpa using hafter position hlt hbound'

/-- The nodes of a run whose sources stand before them are done in their order until one fails, and
those that were done before stay so. -/
theorem Underway.orderly [Clock] (outcome : Step → Value → StateM σ (Except RunError Outcome))
    {steps : List Step} (h : c.Underway input outputs steps.length)
    (hsources : SourcesBefore outputs.length steps) (s : σ) :
    let history := ((c.runHistory outcome outputs.length steps).run s).run.1
    history.Orderly outputs.length (outputs.length + steps.length) ∧
      ∀ (position : Nat) (v : Value), outputs[position]? = some v →
        ∀ state ∈ history.course position, state = some (.done v) := by
  -- That what is done stays so is needed for the node that comes first here.
  induction steps generalizing c outputs s with
  | nil =>
    refine ⟨⟨?_, nofun⟩, ?_⟩
    · intro _ position hle hlt
      exact absurd hlt (Nat.not_lt.2 hle)
    · intro position v hv state hstate
      cases List.mem_singleton.1 hstate
      exact state?_of_done h.states hv
  | cons step rest ih =>
    intro history
    have hpending := h.standing
    have hbegun := hpending.set .evaluating
    obtain ⟨e, s', -, hrun⟩ | ⟨o, s', -, hrun⟩ :=
      h.runHistory_cons_run outcome hsources.head rest s
    · have hfailed := hbegun.set .failed
      have hhistory : history = _ := congrArg Prod.fst hrun
      rw [hhistory]
      refine ⟨hpending.orderly_failed _, ?_⟩
      intro position v hv
      simp [History.course, History.moments, state?_of_done hpending hv, state?_of_done hbegun hv,
        state?_of_done hfailed hv]
    · have hrecorded : ((c.set outputs.length .evaluating).record
          (step.visit outputs.length (step.inputFrom input outputs) o)).Standing outputs
            .evaluating rest.length :=
        hbegun
      have hhistory : history = _ := congrArg Prod.fst hrun
      have hlength : (outputs ++ [o.output]).length = outputs.length + 1 := by simp
      have hnext := ih (h.finish step (step.inputFrom input outputs) o)
      rw [hlength] at hnext
      obtain ⟨horderly, hkept⟩ := hnext hsources.tail s'
      have hdone := hkept outputs.length o.output (by simp)
      rw [Nat.add_assoc, Nat.add_comm 1] at horderly
      rw [hhistory]
      refine ⟨hpending.orderly_after hrecorded hdone horderly, ?_⟩
      intro position v hv
      have hv' : (outputs ++ [o.output])[position]? = some v := by
        rw [List.getElem?_append_left (List.getElem?_eq_some_iff.1 hv).1, hv]
      simpa [state?_of_done hpending hv, state?_of_done hbegun hv, state?_of_done hrecorded hv]
        using hkept position v hv'

end Context
end RuleGraph

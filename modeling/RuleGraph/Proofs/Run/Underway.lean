import RuleGraph.Proofs.Run.Progress
/-!
# Evaluations underway

The first nodes of a decision are done, at most one has begun, and the others are pending. What the
next node gets as its input is then known from the outputs so far, if its sources stand before it.
-/
namespace RuleGraph

/-- The input of a node if the first nodes of its decision gave certain outputs. -/
def Step.inputFrom (step : Step) (input : Value) (outputs : List Value) : Value :=
  if step.program.kind = .input then input else .mergeAll (step.sources.filterMap (outputs[·]?))

/-- Nodes from a position on of which each stands behind its sources. -/
def SourcesBefore (position : Nat) (steps : List Step) : Prop :=
  ∀ (i : Nat) (step : Step), steps[i]? = some step → ∀ source ∈ step.sources, source < position + i

theorem SourcesBefore.head {position : Nat} {step : Step} {rest : List Step}
    (h : SourcesBefore position (step :: rest)) : ∀ source ∈ step.sources, source < position :=
  h 0 step rfl

theorem SourcesBefore.tail {position : Nat} {step : Step} {rest : List Step}
    (h : SourcesBefore position (step :: rest)) : SourcesBefore (position + 1) rest := by
  intro i other hother source hsource
  have hlt := h (i + 1) other hother source hsource
  omega

namespace Context
variable {c : Context} {input : Value} {outputs : List Value} {state : Progress} {left : Nat}
  {step : Step}

theorem state?_of_done {rest : List Progress}
    (hstates : c.states = outputs.map Progress.done ++ rest) {position : Nat} {v : Value}
    (hv : outputs[position]? = some v) : c.state? position = some (.done v) := by
  have hlt : position < (outputs.map Progress.done).length := by
    simpa using (List.getElem?_eq_some_iff.1 hv).1
  rw [state?, hstates, List.getElem?_append_left hlt, List.getElem?_map, hv]
  rfl

theorem output?_of_done {rest : List Progress}
    (hstates : c.states = outputs.map Progress.done ++ rest)
    (hrest : ∀ state ∈ rest, state.output? = none) (source : Nat) :
    c.output? source = outputs[source]? := by
  rw [output?, state?, hstates]
  by_cases hlt : source < outputs.length
  · rw [List.getElem?_append_left (by simpa using hlt), List.getElem?_map]
    cases outputs[source]? <;> rfl
  · have hle := Nat.not_lt.1 hlt
    rw [List.getElem?_append_right (by simpa using hle), List.getElem?_eq_none hle]
    cases hstate : rest[source - (outputs.map Progress.done).length]? with
    | none => rfl
    | some state => exact hrest state (List.mem_of_getElem? hstate)

theorem outputs_of_forall {positions : List Nat}
    (h : ∀ position ∈ positions, ∃ v, c.output? position = some v) :
    c.outputs positions = .ok (positions.filterMap c.output?) := by
  induction positions with
  | nil => rfl
  | cons position rest ih =>
    obtain ⟨v, hv⟩ := h position List.mem_cons_self
    have hrest := ih fun other hother => h other (List.mem_cons_of_mem position hother)
    rw [outputs, hv, List.filterMap_cons_some hv]
    simp [hrest]

/-- The state of an evaluation that stands at a node: those before it are done and those behind it
have not begun. -/
def Standing (c : Context) (outputs : List Value) (state : Progress) (left : Nat) : Prop :=
  c.states = outputs.map Progress.done ++ state :: List.replicate left .pending

namespace Standing
variable (h : c.Standing outputs state left)
include h

theorem set (state' : Progress) :
    (c.set outputs.length state').Standing outputs state' left := by
  unfold Standing at h ⊢
  simp [Context.set, h]

theorem state?_length : c.state? outputs.length = some state := by
  rw [state?, h, List.getElem?_append_right (by simp)]
  simp

theorem state?_behind {position : Nat} (hlt : outputs.length < position)
    (hbound : position < outputs.length + (left + 1)) : c.state? position = some .pending := by
  obtain ⟨i, rfl⟩ := Nat.exists_eq_add_of_lt hlt
  rw [state?, h, List.getElem?_append_right (by simp; omega)]
  have hi : outputs.length + i + 1 - (outputs.map Progress.done).length = i + 1 := by
    rw [List.length_map]
    omega
  rw [hi, List.getElem?_cons_succ, List.getElem?_replicate_of_lt (by omega)]

theorem output? (hstate : state.output? = none) (source : Nat) :
    c.output? source = outputs[source]? := by
  apply output?_of_done h
  intro other hother
  rcases List.mem_cons.1 hother with rfl | hother
  · exact hstate
  · rw [List.eq_of_mem_replicate hother]
    rfl

end Standing

/-- The state of an evaluation whose first nodes are done and the others have not begun. -/
structure Underway (c : Context) (input : Value) (outputs : List Value) (left : Nat) : Prop where
  input : c.input = input
  states : c.states = outputs.map Progress.done ++ List.replicate left .pending

theorem underway_initial (input : Value) (iteration : UInt8) (options : Options) (size : Nat) :
    (initial input iteration options size).Underway input [] size :=
  ⟨rfl, rfl⟩

namespace Underway

theorem output? (h : c.Underway input outputs left) (source : Nat) :
    c.output? source = outputs[source]? := by
  apply output?_of_done h.states
  intro state hstate
  rw [List.eq_of_mem_replicate hstate]
  rfl

section
variable (h : c.Underway input outputs (left + 1))
include h

theorem standing : c.Standing outputs .pending left := by
  rw [Standing, h.states, List.replicate_succ]

/-- A node that has begun gets its input from those before it. -/
theorem inputOf_begun (hsources : ∀ source ∈ step.sources, source < outputs.length) :
    (c.set outputs.length .evaluating).inputOf step = .ok (step.inputFrom input outputs) := by
  have houtput := (h.standing.set .evaluating).output? rfl
  unfold inputOf Step.inputFrom
  split
  · exact congrArg Except.ok h.input
  · have hall : ∀ source ∈ step.sources,
        ∃ v, (c.set outputs.length .evaluating).output? source = some v := by
      intro source hsource
      rw [houtput]
      exact ⟨_, List.getElem?_eq_getElem (hsources source hsource)⟩
    rw [nodeInput, outputs_of_forall hall, funext houtput]
    rfl

theorem finish [Clock] (step : Step) (nodeInput : Value) (o : Outcome) :
    (c.finish outputs.length step nodeInput o).Underway input (outputs ++ [o.output]) left := by
  refine ⟨h.input, ?_⟩
  have hrecorded : ((c.set outputs.length .evaluating).record
      (step.visit outputs.length nodeInput o)).Standing outputs .evaluating left :=
    h.standing.set .evaluating
  rw [Context.finish, hrecorded.set (.done o.output)]
  simp

end
end Underway
end Context
end RuleGraph

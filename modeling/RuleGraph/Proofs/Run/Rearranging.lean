import RuleGraph.Proofs.Run.Settled
/-!
# Nodes in another order

A document may list its nodes in any order: the same nodes get the same inputs along the edges, so
an evaluation comes to the same outcomes. Only the order of the output nodes counts in its result.
-/
namespace RuleGraph

def Entry.unplaced (entry : Entry) : Entry :=
  { entry with order := 0 }

/-- A result with the same value, and with the same entries in any order. -/
structure Result.Rearranges (r' r : Result) : Prop where
  value : r'.value = r.value
  trace : Option.Rel (fun entries' entries =>
    (entries'.map Entry.unplaced).Perm (entries.map Entry.unplaced)) r'.trace r.trace

theorem Step.outcome_congr {host : Host Id}
    {nested : Decision → Value → Id (Except RunError Result)} {iteration : UInt8}
    {step step' : Step} (hid : step'.id = step.id) (hname : step'.name = step.name)
    (hprogram : step'.program = step.program) :
    Step.outcome host nested iteration step' = Step.outcome host nested iteration step := by
  funext input
  rw [outcome, outcomeBy, outcomeBy, hid, hname, hprogram]

namespace Decision
variable {p p' : Decision}

/-- A node that stands in another decision and gets its input from the same nodes. -/
structure SameNode (p p' : Decision) (step step' : Step) : Prop where
  id : step'.id = step.id
  name : step'.name = step.name
  program : step'.program = step.program
  sourceIds : p'.sourceIds step' = p.sourceIds step

/-- A decision all of whose nodes are nodes of another one. -/
def Rearranges (p' p : Decision) : Prop :=
  ∀ step' ∈ p'.steps, ∃ step ∈ p.steps, SameNode p p' step step'

section
variable {step step' : Step} (h : SameNode p p' step step') (f : String → Outcome) (input : Value)
include h

theorem SameNode.inputUnder :
    p'.inputUnder f input step' = p.inputUnder f input step := by
  rw [Decision.inputUnder, Decision.inputUnder, h.program, h.sourceIds]

theorem SameNode.visit (position : Nat) :
    step'.visit position (p'.inputUnder f input step') (f step'.id) =
      step.visit position (p.inputUnder f input step) (f step.id) := by
  rw [h.inputUnder, h.id, Step.visit, Step.visit, h.id, h.name, h.program]

end

theorem Rearranges.settled (h : p'.Rearranges p) {host : Host Id}
    {nested : Decision → Value → Id (Except RunError Result)} {iteration : UInt8} {input : Value}
    {f : String → Outcome} (hf : p.Settled (Step.outcome host nested iteration) input f) :
    p'.Settled (Step.outcome host nested iteration) input f := by
  intro step' hstep'
  obtain ⟨step, hstep, hsame⟩ := h step' hstep'
  rw [Step.outcome_congr hsame.id hsame.name hsame.program, hsame.inputUnder, hsame.id]
  exact hf step hstep

variable [Clock]

def entriesUnder (p : Decision) (f : String → Outcome) (input : Value) : List Entry :=
  p.steps.map fun step => (step.visit 0 (p.inputUnder f input step) (f step.id)).timed

theorem Rearranges.mem_entriesUnder (h : p'.Rearranges p) {f : String → Outcome} {input : Value}
    {entry : Entry} (hentry : entry ∈ p'.entriesUnder f input) :
    entry ∈ p.entriesUnder f input := by
  obtain ⟨step', hstep', rfl⟩ := List.mem_map.1 hentry
  obtain ⟨step, hstep, hsame⟩ := h step' hstep'
  rw [hsame.visit]
  exact List.mem_map_of_mem hstep

theorem nodup_entriesUnder (hp : p.WellFormed) (f : String → Outcome) (input : Value) :
    (p.entriesUnder f input).Nodup := by
  have hids : (p.entriesUnder f input).map (·.id) = p.steps.map Step.id := by
    rw [entriesUnder, List.map_map]
    rfl
  exact .of_map (·.id) (hids ▸ hp.distinct)

section
variable (h : p.Rearranges p') (h' : p'.Rearranges p) (hp : p.WellFormed) (hp' : p'.WellFormed)
  (houtputs : p'.outputIds = p.outputIds)
include h h' hp hp' houtputs

theorem Rearranges.resultUnder (options : Options) (f : String → Outcome) (input : Value) :
    (p'.resultUnder options f input).Rearranges (p.resultUnder options f input) := by
  have hunplaced (q : Decision) : (q.steps.mapIdx fun position step =>
      (step.visit position (q.inputUnder f input step) (f step.id)).timed).map Entry.unplaced =
        q.entriesUnder f input := by
    apply List.ext_getElem?
    intro position
    simp [entriesUnder, Entry.unplaced, Visit.timed, Step.visit, Function.comp_def]
  constructor
  · rw [Decision.resultUnder, Decision.resultUnder, houtputs]
  · unfold Decision.resultUnder
    cases options.trace with
    | false => exact .none
    | true =>
      refine .some ?_
      -- No entry occurs twice, as each has the id of its node.
      rw [hunplaced, hunplaced]
      exact (List.perm_ext_iff_of_nodup (nodup_entriesUnder hp' f input)
        (nodup_entriesUnder hp f input)).2 fun entry => ⟨h'.mem_entriesUnder, h.mem_entriesUnder⟩

theorem Rearranges.evaluateAt {host : Host Id} {options : Options} {iteration : UInt8}
    {input : Value} {r : Result} (hr : (p.evaluateAt host options iteration input).run = .ok r) :
    ∃ r', (p'.evaluateAt host options iteration input).run = .ok r' ∧ r'.Rearranges r := by
  obtain ⟨hlt, f, hf, rfl⟩ := (evaluateAt_eq_ok_iff_settled hp).1 hr
  exact ⟨p'.resultUnder options f input,
    (evaluateAt_eq_ok_iff_settled hp').2 ⟨hlt, f, h'.settled hf, rfl⟩,
    h.resultUnder h' hp hp' houtputs options f input⟩

end

end Decision

theorem Document.ids_perm {d d' : Document} (h : d'.nodes.Perm d.nodes) : d'.ids.Perm d.ids :=
  h.map _

theorem Document.IsValid.of_perm {d d' : Document} (hnodes : d'.nodes.Perm d.nodes)
    (hedges : d'.edges = d.edges) (h : d.IsValid) : d'.IsValid where
  distinct := (ids_perm hnodes).nodup_iff.2 h.distinct
  input := by simpa only [hnodes.mem_iff] using h.input
  output := by simpa only [hnodes.mem_iff] using h.output
  ends := by simpa only [hedges, (ids_perm hnodes).mem_iff] using h.ends
  acyclic := by
    unfold Joins
    rw [hedges]
    exact h.acyclic

namespace Compiler
variable {c : Compiler} {d d' : Document} {key : Option String} {p p' : Decision}

theorem exists_compile_of_perm (hnodes : d'.nodes.Perm d.nodes) (hedges : d'.edges = d.edges)
    (h : c.compile d key = .ok p) : ∃ p', c.compile d' key = .ok p' := by
  obtain ⟨hvalid, hprograms⟩ := exists_compile_iff.1 ⟨p, h⟩
  refine exists_compile_iff.2 ⟨hvalid.of_perm hnodes hedges, fun node hnode => ?_⟩
  exact hprograms node (hnodes.subset hnode)

theorem exists_step_of_node (h : c.compile d key = .ok p) {node : Node} (hnode : node ∈ d.nodes) :
    ∃ step ∈ p.steps, step.id = node.id ∧ step.name = node.name ∧
      c.program node.id node.content = .ok step.program := by
  have hmem : node.id ∈ p.steps.map Step.id :=
    (map_id_perm h).symm.subset (List.mem_map_of_mem hnode)
  obtain ⟨step, hstep, hid⟩ := List.mem_map.1 hmem
  obtain ⟨position, hposition⟩ := List.getElem?_of_mem hstep
  obtain ⟨l, i, other, hl, -, hother, hid', hname, -, hprogram⟩ := step_of_compile h hposition
  have hdistinct := (Document.layout_eq_ok hl).1.distinct
  have hsame : other = node :=
    List.inj_on_of_nodup_map hdistinct (List.mem_of_getElem? hother) hnode (hid'.symm.trans hid)
  exact ⟨step, hstep, hid, hsame ▸ hname, hsame ▸ hprogram⟩

theorem rearranges_of_perm (hnodes : d'.nodes.Perm d.nodes) (hedges : d'.edges = d.edges)
    (h : c.compile d key = .ok p) (h' : c.compile d' key = .ok p') : p'.Rearranges p := by
  intro step' hstep'
  obtain ⟨position', hposition'⟩ := List.getElem?_of_mem hstep'
  obtain ⟨-, i, node, -, -, hi, hid', hname', -, hprogram'⟩ := step_of_compile h' hposition'
  obtain ⟨step, hstep, hid, hname, hprogram⟩ :=
    exists_step_of_node h (hnodes.subset (List.mem_of_getElem? hi))
  obtain ⟨position, hposition⟩ := List.getElem?_of_mem hstep
  refine ⟨step, hstep, hid'.trans hid.symm, hname'.trans hname.symm, ?_, ?_⟩
  · exact Except.ok.inj (hprogram'.symm.trans hprogram)
  · rw [sourceIds_of_compile h' hposition', sourceIds_of_compile h hposition, hedges, hid', hid]

/-- A document compiles whatever the order of its nodes. As long as its output nodes are executed in
the same order, its evaluations succeed alike, with the same values and the same entries. -/
theorem evaluateAt_of_nodes_perm [Clock] (c : Compiler) (d d' : Document) (key : Option String)
    (p : Decision) (hnodes : d'.nodes.Perm d.nodes) (hedges : d'.edges = d.edges)
    (h : c.compile d key = .ok p) :
    ∃ p', c.compile d' key = .ok p' ∧ (p'.outputIds = p.outputIds →
      ∀ (host : Host Id) (options : Options) (iteration : UInt8) (input : Value),
        ((∃ r', (p'.evaluateAt host options iteration input).run = .ok r') ↔
          ∃ r, (p.evaluateAt host options iteration input).run = .ok r) ∧
        ∀ r r', (p.evaluateAt host options iteration input).run = .ok r →
          (p'.evaluateAt host options iteration input).run = .ok r' → r'.Rearranges r) := by
  obtain ⟨p', h'⟩ := exists_compile_of_perm hnodes hedges h
  have hp := wellFormed_of_compile h
  have hp' := wellFormed_of_compile h'
  have hforth := rearranges_of_perm hnodes hedges h h'
  have hback := rearranges_of_perm hnodes.symm hedges.symm h' h
  refine ⟨p', h', fun houtputs host options iteration input => ⟨⟨?_, ?_⟩, ?_⟩⟩
  · rintro ⟨r', hr'⟩
    obtain ⟨r, hr, -⟩ := hforth.evaluateAt hback hp' hp houtputs.symm hr'
    exact ⟨r, hr⟩
  · rintro ⟨r, hr⟩
    obtain ⟨r', hr', -⟩ := hback.evaluateAt hforth hp hp' houtputs hr
    exact ⟨r', hr'⟩
  · intro r r' hr hr'
    obtain ⟨other, hother, hsame⟩ := hback.evaluateAt hforth hp hp' houtputs hr
    cases hr'.symm.trans hother
    exact hsame

/-- A bill and a note that both need the tax of an amount. -/
def billDocument : Document where
  nodes := [
    ⟨"in", "Request", .input none⟩,
    ⟨"net", "Net", .expressions [⟨"net", "net", "amount"⟩] false⟩,
    ⟨"tax", "Tax", .expressions [⟨"tax", "tax", "amount / 5"⟩] false⟩,
    ⟨"bill", "Bill", .output⟩,
    ⟨"note", "Note", .output⟩]
  edges := [.between "in" "net", .between "in" "tax", .between "tax" "bill",
    .between "net" "bill", .between "tax" "note"]

def taxFirstDocument : Document :=
  { billDocument with nodes := [
      ⟨"in", "Request", .input none⟩,
      ⟨"tax", "Tax", .expressions [⟨"tax", "tax", "amount / 5"⟩] false⟩,
      ⟨"net", "Net", .expressions [⟨"net", "net", "amount"⟩] false⟩,
      ⟨"bill", "Bill", .output⟩,
      ⟨"note", "Note", .output⟩] }

theorem taxFirstDocument_evaluateAt :
    taxFirstDocument.nodes.Perm billDocument.nodes ∧
    taxFirstDocument.edges = billDocument.edges ∧
    ∃ p p', standard.compile billDocument none = .ok p ∧
      standard.compile taxFirstDocument none = .ok p' ∧
      p.outputIds = ["bill", "note"] ∧ p'.outputIds = p.outputIds ∧
      p'.steps.map Step.id ≠ p.steps.map Step.id ∧
      ∀ (host : Host Id) (options : Options) (input : Value) (r r' : Result),
        (p.evaluateAt host options 0 input).run = .ok r →
          (p'.evaluateAt host options 0 input).run = .ok r' → r'.Rearranges r := by
  have hnodes : taxFirstDocument.nodes.Perm billDocument.nodes := .cons _ (.swap _ _ _)
  have hp : ((standard.compile billDocument none).map fun p =>
      (p.outputIds, p.steps.map Step.id)).toOption =
        some (["bill", "note"], ["in", "net", "tax", "bill", "note"]) := by decide +kernel
  have hp' : ((standard.compile taxFirstDocument none).map fun p =>
      (p.outputIds, p.steps.map Step.id)).toOption =
        some (["bill", "note"], ["in", "tax", "net", "bill", "note"]) := by decide +kernel
  refine ⟨hnodes, rfl, ?_⟩
  cases h : standard.compile billDocument none with
  | error e => rw [h] at hp; cases hp
  | ok p =>
    obtain ⟨p', h', hsame⟩ := evaluateAt_of_nodes_perm standard billDocument taxFirstDocument none p
      hnodes rfl h
    rw [h] at hp
    rw [h'] at hp'
    simp only [map_ok, Except.toOption, Option.some.injEq, Prod.mk.injEq] at hp hp'
    have houtputs : p'.outputIds = p.outputIds := hp'.1.trans hp.1.symm
    refine ⟨p, p', rfl, h', hp.1, houtputs, by simp [hp.2, hp'.2], ?_⟩
    intro host options input
    exact (hsame houtputs host options 0 input).2

end Compiler
end RuleGraph

import RuleGraph.Decision.Compile
import RuleGraph.Proofs.Graph.Layout
import RuleGraph.Proofs.Run.Underway
/-!
# Compiled decisions are well formed

What a compiler gives: each node once, behind its sources, with the positions of the outputs in
order, and tables whose rows have a cell for each column. And when it gives something.
-/
namespace RuleGraph

/-- A table in which each row knows its place and has a cell for each column. -/
structure Table.WellFormed (t : Table) : Prop where
  index : ∀ (i : Nat) (row : Row), t.rows[i]? = some row → row.index = i
  conditions : ∀ row ∈ t.rows, row.conditions.length = t.inputs.length
  outputs : ∀ row ∈ t.rows, row.outputs.length = t.outputs.length

/-- A decision as its evaluation relies on it. -/
structure Decision.WellFormed (p : Decision) : Prop where
  distinct : (p.steps.map Step.id).Nodup
  sources_lt : ∀ (position : Nat) (step : Step), p.steps[position]? = some step →
    ∀ source ∈ step.sources, source < position
  outputs_lt : p.outputs.Pairwise (· < ·)
  mem_outputs : ∀ position, position ∈ p.outputs ↔
    ∃ step, p.steps[position]? = some step ∧ step.program = .output
  tables : ∀ step ∈ p.steps, ∀ t, step.program = .table t → t.WellFormed

theorem Decision.WellFormed.sourcesBefore {p : Decision} (h : p.WellFormed) :
    SourcesBefore 0 p.steps := by
  intro position step hstep source hsource
  rw [Nat.zero_add]
  exact h.sources_lt position step hstep source hsource

/-- The ids of the nodes that a node gets its input from, in the order of the edges. -/
def Decision.sourceIds (p : Decision) (step : Step) : List String :=
  step.sources.filterMap fun source => (p.steps[source]?).map Step.id

/-- The ids of the output nodes, in the order in which they are executed. -/
def Decision.outputIds (p : Decision) : List String :=
  p.outputs.filterMap fun position => (p.steps[position]?).map Step.id

namespace Compiler
variable {c : Compiler} {d : Document} {key : Option String} {p : Decision}

theorem row_eq_ok {node : String} {content : TableContent} {index : Nat} {rule : Rule} {row : Row}
    (h : c.row node content index rule = .ok row) :
    row.index = index ∧ row.conditions.length = content.inputs.length ∧
      row.outputs.length = content.outputs.length := by
  obtain ⟨conditions, hconditions, h⟩ := bind_eq_ok.1 h
  obtain ⟨outputs, houtputs, h⟩ := bind_eq_ok.1 h
  cases h
  exact ⟨rfl, length_of_mapM_eq_ok hconditions, length_of_mapM_eq_ok houtputs⟩

theorem rows_eq_ok {node : String} {content : TableContent} {index : Nat} {rules : List Rule}
    {rows : List Row} (h : c.rows node content index rules = .ok rows) :
    ∀ (i : Nat) (row : Row), rows[i]? = some row → row.index = index + i ∧
      row.conditions.length = content.inputs.length ∧
      row.outputs.length = content.outputs.length := by
  induction rules generalizing index rows with
  | nil =>
    cases h
    simp
  | cons rule rest ih =>
    obtain ⟨first, hfirst, h⟩ := bind_eq_ok.1 h
    obtain ⟨others, hothers, h⟩ := bind_eq_ok.1 h
    cases h
    intro i row hrow
    cases i with
    | zero =>
      cases hrow
      exact row_eq_ok hfirst
    | succ i =>
      obtain ⟨hindex, hcells⟩ := ih hothers i row hrow
      exact ⟨by omega, hcells⟩

theorem table_wellFormed {node : String} {content : TableContent} {t : Table}
    (h : c.table node content = .ok t) : t.WellFormed := by
  obtain ⟨inputs, hinputs, h⟩ := bind_eq_ok.1 h
  obtain ⟨outputs, houtputs, h⟩ := bind_eq_ok.1 h
  obtain ⟨rows, hrows, h⟩ := bind_eq_ok.1 h
  cases h
  have hcells := rows_eq_ok hrows
  constructor
  · intro i row hrow
    simpa using (hcells i row hrow).1
  · intro row hmem
    obtain ⟨i, hrow⟩ := List.getElem?_of_mem hmem
    rw [(hcells i row hrow).2.1, length_of_mapM_eq_ok hinputs]
  · intro row hmem
    obtain ⟨i, hrow⟩ := List.getElem?_of_mem hmem
    rw [(hcells i row hrow).2.2, length_of_mapM_eq_ok houtputs]

theorem wellFormed_of_program {node : String} {content : Content} {t : Table}
    (h : c.program node content = .ok (.table t)) : t.WellFormed := by
  cases content with
  | table content =>
    obtain ⟨t', ht', h⟩ := bind_eq_ok.1 h
    cases h
    exact table_wellFormed ht'
  | expressions entries passes =>
    obtain ⟨_, _, h⟩ := bind_eq_ok.1 h
    cases h
  | function source =>
    obtain ⟨_, _, h⟩ := bind_eq_ok.1 h
    cases h
  | custom component config =>
    simp only [program] at h
    split at h <;> cases h
  | decision key =>
    simp only [program] at h
    split at h <;> cases h
  | input schema => cases h
  | output => cases h

theorem map_some_filterMap_id {α : Type} {places : List (Option α)}
    (h : ∀ place ∈ places, ∃ a, place = some a) : (places.filterMap id).map some = places := by
  induction places with
  | nil => rfl
  | cons place rest ih =>
    obtain ⟨a, rfl⟩ := h place List.mem_cons_self
    have hrest := ih fun other hother => h other (List.mem_cons_of_mem _ hother)
    simpa using hrest

theorem stepAt_of_node {l : Layout} {i : Nat} {node : Node} (hnode : d.nodes[i]? = some node) :
    c.stepAt d l i = (c.program node.id node.content).map fun program =>
      some ⟨node.id, node.name, (l.sources.getD i []).map l.order.idxOf, program⟩ := by
  unfold stepAt
  simp only [hnode]
  cases c.program node.id node.content with
  | error e => rfl
  | ok program => rfl

/-- What is compiled has one step for each place of the order. -/
theorem compile_eq_ok (h : c.compile d key = .ok p) : ∃ l, d.layout = .ok l ∧
    l.order.map (c.stepAt d l) = p.steps.map (fun step => .ok (some step)) ∧
    p.outputs = outputPositions p.steps := by
  obtain ⟨l, hl, h⟩ := bind_eq_ok.1 h
  obtain ⟨places, hplaces, h⟩ := bind_eq_ok.1 h
  cases h
  refine ⟨l, hl, ?_, rfl⟩
  rw [mapM_eq_ok_iff] at hplaces
  have hsome : ∀ place ∈ places, ∃ step, place = some step := by
    intro place hplace
    have hmem : Except.ok place ∈ l.order.map (c.stepAt d l) := by
      rw [hplaces]
      exact List.mem_map_of_mem hplace
    obtain ⟨i, hi, hstep⟩ := List.mem_map.1 hmem
    have hlt := List.mem_range.1 ((Document.isOrder_of_layout hl).perm.subset hi)
    rw [stepAt_of_node (List.getElem?_eq_getElem hlt)] at hstep
    obtain ⟨program, -, rfl⟩ := map_eq_ok.1 hstep
    exact ⟨_, rfl⟩
  rw [hplaces]
  conv_lhs => rw [← map_some_filterMap_id hsome, List.map_map]
  rfl

section
variable (h : c.compile d key = .ok p) {position : Nat} {step : Step}
include h

theorem step_of_compile (hstep : p.steps[position]? = some step) :
    ∃ l i node, d.layout = .ok l ∧ l.order[position]? = some i ∧ d.nodes[i]? = some node ∧
      step.id = node.id ∧ step.name = node.name ∧
      step.sources = (l.sources.getD i []).map l.order.idxOf ∧
      c.program node.id node.content = .ok step.program := by
  obtain ⟨l, hl, hsteps, -⟩ := compile_eq_ok h
  have hplace := congrArg (·[position]?) hsteps
  simp only [List.getElem?_map, hstep, Option.map_some, Option.map_eq_some_iff] at hplace
  obtain ⟨i, hi, hplace⟩ := hplace
  have hlt := List.mem_range.1
    ((Document.isOrder_of_layout hl).perm.subset (List.mem_of_getElem? hi))
  have hnode := List.getElem?_eq_getElem hlt
  rw [stepAt_of_node hnode] at hplace
  obtain ⟨program, hprogram, hplace⟩ := map_eq_ok.1 hplace
  cases hplace
  exact ⟨l, i, _, hl, hi, hnode, rfl, rfl, rfl, hprogram⟩

theorem map_id_of_layout {l : Layout} (hl : d.layout = .ok l) :
    p.steps.map Step.id = l.order.map d.idAt := by
  apply List.ext_getElem?
  intro position
  rw [List.getElem?_map, List.getElem?_map]
  cases hstep : p.steps[position]? with
  | some step =>
    obtain ⟨l', i, node, hl', hi, hnode, hid, -⟩ := step_of_compile h hstep
    cases hl.symm.trans hl'
    simp [hi, hid, Document.idAt, hnode]
  | none =>
    obtain ⟨l', hl', hsteps, -⟩ := compile_eq_ok h
    cases hl.symm.trans hl'
    have hlength := congrArg List.length hsteps
    simp only [List.length_map] at hlength
    rw [List.getElem?_eq_none_iff] at hstep
    rw [List.getElem?_eq_none (by omega)]
    rfl

theorem map_id_perm : (p.steps.map Step.id).Perm d.ids := by
  obtain ⟨l, hl, -⟩ := compile_eq_ok h
  rw [map_id_of_layout h hl, Document.ids_eq_map_idAt]
  exact (Document.isOrder_of_layout hl).perm.map d.idAt

/-- The sources of a step are the positions of the sources of its edges, in their order. -/
theorem sources_of_compile (hstep : p.steps[position]? = some step) :
    ∃ (l : Layout) (i : Nat) (places : List Nat), d.layout = .ok l ∧
      l.order[position]? = some i ∧ d.indexOf? step.id = some i ∧
      step.sources = places.map l.order.idxOf ∧
      places.map some = (d.edges.filter (·.target == step.id)).map (d.indexOf? ·.source) := by
  obtain ⟨l, i, node, hl, hi, hnode, hid, -, hsources, -⟩ := step_of_compile h hstep
  obtain ⟨places, hplaces, hedges⟩ := Document.sources_of_layout hl hnode
  rw [List.getD_eq_getElem?_getD, hplaces, Option.getD_some] at hsources
  rw [← hid] at hedges
  refine ⟨l, i, places, hl, hi, ?_, hsources, hedges⟩
  rw [Document.indexOf?_eq_some_iff (Document.layout_eq_ok hl).1.distinct, hid]
  simp [Document.ids, hnode]

theorem source_lt_of_compile (hstep : p.steps[position]? = some step) {source : Nat}
    (hsource : source ∈ step.sources) : source < position := by
  obtain ⟨l, i, places, hl, hi, hindex, hsources, hedges⟩ := sources_of_compile h hstep
  have horder := Document.isOrder_of_layout hl
  rw [hsources] at hsource
  obtain ⟨s, hs, rfl⟩ := List.mem_map.1 hsource
  have hmem : some s ∈ places.map some := List.mem_map_of_mem hs
  rw [hedges] at hmem
  obtain ⟨e, he, hs⟩ := List.mem_map.1 hmem
  obtain ⟨he, htarget⟩ := List.mem_filter.1 he
  rw [← beq_iff_eq.1 htarget] at hindex
  have hprecedes := horder.precedes e he s i hs hindex
  obtain ⟨hlt, rfl⟩ := List.getElem?_eq_some_iff.1 hi
  rwa [(horder.perm.nodup_iff.2 List.nodup_range).idxOf_getElem position hlt] at hprecedes

theorem sourceIds_of_compile (hstep : p.steps[position]? = some step) :
    p.sourceIds step = (d.edges.filter (·.target == step.id)).map (·.source) := by
  obtain ⟨l, i, places, hl, -, -, hsources, hedges⟩ := sources_of_compile h hstep
  have horder := Document.isOrder_of_layout hl
  have hid {s : Nat} {id : String} (hs : d.indexOf? id = some s) :
      (p.steps[l.order.idxOf s]?).map Step.id = some id := by
    rw [Document.indexOf?_eq_some_iff (Document.layout_eq_ok hl).1.distinct] at hs
    have hlt : s < d.nodes.length := by
      rw [← Document.length_ids]
      exact (List.getElem?_eq_some_iff.1 hs).1
    have hmem : s ∈ l.order := horder.perm.symm.subset (List.mem_range.2 hlt)
    rw [← List.getElem?_map, map_id_of_layout h hl, List.getElem?_map, List.getElem?_idxOf hmem]
    exact congrArg some (Document.idAt_of_getElem? hs)
  rw [Decision.sourceIds, hsources]
  generalize d.edges.filter (·.target == step.id) = edges at hedges
  clear hsources
  induction edges generalizing places with
  | nil =>
    cases places with
    | nil => rfl
    | cons s rest => simp at hedges
  | cons e rest ih =>
    cases places with
    | nil => simp at hedges
    | cons s places =>
      obtain ⟨hs, hrest⟩ := List.cons.inj hedges
      rw [List.map_cons, List.map_cons, ← ih places hrest]
      exact List.filterMap_cons_some (hid hs.symm)

end

theorem mem_outputPositions {steps : List Step} {position : Nat} :
    position ∈ outputPositions steps ↔
      ∃ step, steps[position]? = some step ∧ step.program = .output := by
  unfold outputPositions
  rw [List.mem_filter, List.mem_range]
  cases hstep : steps[position]? with
  | none => simp
  | some step =>
    have hlt := (List.getElem?_eq_some_iff.1 hstep).1
    cases hprogram : step.program <;> simp [hlt, hprogram, Program.kind]

theorem wellFormed_of_compile (h : c.compile d key = .ok p) : p.WellFormed := by
  obtain ⟨l, hl, -, houtputs⟩ := compile_eq_ok h
  have hdistinct := (Document.layout_eq_ok hl).1.distinct
  constructor
  · exact (map_id_perm h).nodup_iff.2 hdistinct
  · intro position step hstep source hsource
    exact source_lt_of_compile h hstep hsource
  · rw [houtputs]
    exact List.pairwise_lt_range.filter _
  · intro position
    rw [houtputs, mem_outputPositions]
  · intro step hmem t ht
    obtain ⟨position, hstep⟩ := List.getElem?_of_mem hmem
    obtain ⟨l, i, node, -, -, -, -, -, -, hprogram⟩ := step_of_compile h hstep
    rw [ht] at hprogram
    exact wellFormed_of_program hprogram

/-- A document is compiled exactly if it is valid and so is the content of each node. -/
theorem exists_compile_iff : (∃ p, c.compile d key = .ok p) ↔
    d.IsValid ∧ ∀ node ∈ d.nodes, ∃ program, c.program node.id node.content = .ok program := by
  constructor
  · rintro ⟨p, h⟩
    obtain ⟨l, hl, hsteps, -⟩ := compile_eq_ok h
    refine ⟨(Document.layout_eq_ok hl).1, fun node hmem => ?_⟩
    obtain ⟨i, hnode⟩ := List.getElem?_of_mem hmem
    have hlt := (List.getElem?_eq_some_iff.1 hnode).1
    have hi := (Document.isOrder_of_layout hl).perm.symm.subset (List.mem_range.2 hlt)
    have hplace : c.stepAt d l i ∈ l.order.map (c.stepAt d l) := List.mem_map_of_mem hi
    rw [hsteps, stepAt_of_node hnode] at hplace
    obtain ⟨step, -, hstep⟩ := List.mem_map.1 hplace
    obtain ⟨program, hprogram, -⟩ := map_eq_ok.1 hstep.symm
    exact ⟨program, hprogram⟩
  · rintro ⟨hvalid, hprograms⟩
    obtain ⟨l, hl⟩ := Document.exists_layout hvalid
    unfold compile
    rw [hl, ok_bind]
    cases hplaces : l.order.mapM (c.stepAt d l) with
    | ok places => exact ⟨_, rfl⟩
    | error e =>
      obtain ⟨i, hi, he⟩ := exists_of_mapM_eq_error hplaces
      have hlt := List.mem_range.1 ((Document.isOrder_of_layout hl).perm.subset hi)
      obtain ⟨program, hprogram⟩ := hprograms _ (List.getElem_mem hlt)
      rw [stepAt_of_node (List.getElem?_eq_getElem hlt), hprogram] at he
      cases he

end Compiler
end RuleGraph

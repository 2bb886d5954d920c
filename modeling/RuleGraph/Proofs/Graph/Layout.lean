import RuleGraph.Graph.Analysis
import RuleGraph.Proofs.Graph.Countdown
import RuleGraph.Proofs.Results
/-!
# The layout of a document

A document has a layout exactly if its ids, its terminal nodes and its edges are in order and no
edge lies on a cycle. The layout is then the least order that puts sources first, and otherwise the
nodes behind a cycle are told.
-/
namespace RuleGraph
namespace Document

def ids (d : Document) : List String :=
  d.nodes.map (·.id)

def Joins (d : Document) (source target : String) : Prop :=
  ∃ e ∈ d.edges, e.source = source ∧ e.target = target

/-- A document whose nodes and edges fit together, with or without a cycle. -/
structure IsComplete (d : Document) : Prop where
  distinct : d.ids.Nodup
  input : ∃ node ∈ d.nodes, node.content.kind = .input
  output : ∃ node ∈ d.nodes, node.content.kind = .output
  ends : ∀ e ∈ d.edges, e.source ∈ d.ids ∧ e.target ∈ d.ids

structure IsValid (d : Document) : Prop extends d.IsComplete where
  acyclic : Acyclic d.Joins

variable {d : Document} {id : String} {i : Nat} {pairs : List (Nat × Nat)}

theorem firstRepeated_eq_none_iff {seen ids : List String} :
    firstRepeated seen ids = none ↔ ids.Nodup ∧ ∀ id ∈ ids, id ∉ seen := by
  induction ids generalizing seen with
  | nil => simp [firstRepeated]
  | cons id rest ih =>
    by_cases hid : id ∈ seen
    · simp [firstRepeated, hid]
    · have hnext : firstRepeated seen (id :: rest) = firstRepeated (id :: seen) rest := by
        simp [firstRepeated, hid]
      rw [hnext, ih, List.nodup_cons, List.forall_mem_cons]
      constructor
      · rintro ⟨hrest, hseen⟩
        exact ⟨⟨fun hmem => hseen id hmem List.mem_cons_self, hrest⟩, hid,
          fun a ha hmem => hseen a ha (List.mem_cons_of_mem id hmem)⟩
      · rintro ⟨⟨hfresh, hrest⟩, -, hseen⟩
        refine ⟨hrest, fun a ha hmem => ?_⟩
        rcases List.mem_cons.1 hmem with rfl | hmem
        · exact hfresh ha
        · exact hseen a ha hmem

theorem hasKind_iff {kind : NodeKind} :
    d.hasKind kind ↔ ∃ node ∈ d.nodes, node.content.kind = kind := by
  simp [hasKind]

theorem length_ids (d : Document) : d.ids.length = d.nodes.length := by
  simp [ids]

theorem indexOf?_eq_some_iff (h : d.ids.Nodup) : d.indexOf? id = some i ↔ d.ids[i]? = some id := by
  have hindex : d.indexOf? id = d.ids.findIdx? (· == id) := by
    simp [indexOf?, ids, List.findIdx?_map, Function.comp_def]
  rw [hindex, List.findIdx?_eq_some_iff_getElem]
  constructor
  · rintro ⟨hi, heq, -⟩
    rw [List.getElem?_eq_getElem hi, beq_iff_eq.1 heq]
  · intro hid
    obtain ⟨hi, heq⟩ := List.getElem?_eq_some_iff.1 hid
    refine ⟨hi, by simpa using heq, ?_⟩
    intro j hj hsame
    have hplace := h.getElem_inj_iff.1 ((beq_iff_eq.1 hsame).trans heq.symm)
    exact Nat.ne_of_lt hj hplace

theorem idAt_of_getElem? (h : d.ids[i]? = some id) : d.idAt i = id := by
  rw [ids, List.getElem?_map, Option.map_eq_some_iff] at h
  obtain ⟨node, hnode, rfl⟩ := h
  simp [idAt, hnode]

theorem getElem?_ids (hi : i < d.nodes.length) : d.ids[i]? = some (d.idAt i) := by
  have hids : d.ids[i]? = some (d.nodes[i]).id := by
    simp [ids, hi]
  rw [idAt_of_getElem? hids, hids]

theorem ids_eq_map_idAt (d : Document) : d.ids = (List.range d.nodes.length).map d.idAt := by
  apply List.ext_getElem?
  intro i
  by_cases hi : i < d.nodes.length
  · rw [getElem?_ids hi]
    simp [hi]
  · rw [List.getElem?_eq_none (by simpa [length_ids] using hi),
      List.getElem?_eq_none (by simpa using hi)]

theorem ends_eq_ok_iff {e : Edge} {s t : Nat} :
    d.ends e = .ok (s, t) ↔ d.indexOf? e.source = some s ∧ d.indexOf? e.target = some t := by
  unfold ends
  cases d.indexOf? e.source with
  | none => simp
  | some s' => cases d.indexOf? e.target <;> simp

theorem ends_ne_cycle {e : Edge} {err : CompileError} (h : d.ends e = .error err)
    (ids : List String) : err ≠ .cycle ids := by
  unfold ends at h
  split at h
  · cases h
  · cases h
    nofun
  · cases h
    nofun

theorem exists_mapM_ends (h : d.IsComplete) : ∃ pairs, d.edges.mapM d.ends = .ok pairs := by
  cases hpairs : d.edges.mapM d.ends with
  | ok pairs => exact ⟨pairs, rfl⟩
  | error err =>
    obtain ⟨e, he, herr⟩ := exists_of_mapM_eq_error hpairs
    obtain ⟨hsource, htarget⟩ := h.ends e he
    obtain ⟨s, hs⟩ := List.getElem?_of_mem hsource
    obtain ⟨t, ht⟩ := List.getElem?_of_mem htarget
    rw [← indexOf?_eq_some_iff h.distinct] at hs ht
    cases herr.symm.trans (ends_eq_ok_iff.2 ⟨hs, ht⟩)

theorem exists_places (hpairs : d.edges.mapM d.ends = .ok pairs) {e : Edge} (he : e ∈ d.edges) :
    ∃ s t, (s, t) ∈ pairs ∧ d.indexOf? e.source = some s ∧ d.indexOf? e.target = some t := by
  have hends : d.ends e ∈ pairs.map .ok := by
    rw [← mapM_eq_ok_iff.1 hpairs]
    exact List.mem_map_of_mem he
  obtain ⟨⟨s, t⟩, hst, heq⟩ := List.mem_map.1 hends
  exact ⟨s, t, hst, ends_eq_ok_iff.1 heq.symm⟩

section
variable (hd : d.ids.Nodup) (hpairs : d.edges.mapM d.ends = .ok pairs)
include hd hpairs

theorem mem_pairs_iff {s t : Nat} :
    (s, t) ∈ pairs ↔ ∃ e ∈ d.edges, d.ids[s]? = some e.source ∧ d.ids[t]? = some e.target := by
  have hmem : (s, t) ∈ pairs ↔ Except.ok (s, t) ∈ pairs.map (Except.ok (ε := CompileError)) := by
    simp
  rw [hmem, ← mapM_eq_ok_iff.1 hpairs, List.mem_map]
  simp only [ends_eq_ok_iff, indexOf?_eq_some_iff hd]

theorem lt_of_mem_pairs : ∀ p ∈ pairs, p.1 < d.nodes.length ∧ p.2 < d.nodes.length := by
  rintro ⟨s, t⟩ hp
  obtain ⟨e, -, hs, ht⟩ := (mem_pairs_iff hd hpairs).1 hp
  rw [← length_ids]
  exact ⟨(List.getElem?_eq_some_iff.1 hs).1, (List.getElem?_eq_some_iff.1 ht).1⟩

theorem behindCycle_idAt (h : BehindCycle (fun s t => (s, t) ∈ pairs) i) :
    BehindCycle d.Joins (d.idAt i) := by
  refine h.map d.idAt fun s t hst => ?_
  obtain ⟨e, he, hs, ht⟩ := (mem_pairs_iff hd hpairs).1 hst
  exact ⟨e, he, (idAt_of_getElem? hs).symm, (idAt_of_getElem? ht).symm⟩

omit hd in
theorem behindCycle_indexOf? (h : BehindCycle d.Joins id) :
    BehindCycle (fun s t => (s, t) ∈ pairs) ((d.indexOf? id).getD 0) := by
  refine h.map (fun id => (d.indexOf? id).getD 0) ?_
  rintro _ _ ⟨e, he, rfl, rfl⟩
  obtain ⟨s, t, hst, hs, ht⟩ := exists_places hpairs he
  simpa [hs, ht] using hst

theorem behindCycle_idAt_iff (hi : i < d.nodes.length) :
    BehindCycle d.Joins (d.idAt i) ↔ BehindCycle (fun s t => (s, t) ∈ pairs) i := by
  have hindex := (indexOf?_eq_some_iff hd).2 (getElem?_ids hi)
  constructor
  · intro h
    simpa [hindex] using behindCycle_indexOf? hpairs h
  · exact behindCycle_idAt hd hpairs

theorem acyclic_joins_iff : Acyclic d.Joins ↔ Acyclic fun s t => (s, t) ∈ pairs := by
  rw [acyclic_iff_forall_not_behindCycle, acyclic_iff_forall_not_behindCycle]
  exact ⟨fun h i hi => h _ (behindCycle_idAt hd hpairs hi),
    fun h id hid => h _ (behindCycle_indexOf? hpairs hid)⟩

end

/-- A complete document is laid out, or its nodes behind a cycle are told. -/
theorem layout_of_isComplete (h : d.IsComplete) :
    ∃ pairs order, d.edges.mapM d.ends = .ok pairs ∧ Greedy d.nodes.length pairs [] order ∧
      (Acyclic d.Joins ∧
          d.layout = .ok ⟨order, (List.range d.nodes.length).map (sourcesOf pairs)⟩ ∨
        ¬Acyclic d.Joins ∧ d.layout =
          .error (.cycle (((List.range d.nodes.length).filter (· ∉ order)).map d.idAt))) := by
  obtain ⟨pairs, hpairs⟩ := exists_mapM_ends h
  obtain ⟨order, hgreedy, hcases⟩ :=
    Layout.ofEdges_cases (lt_of_mem_pairs h.distinct hpairs)
  have hfirst : firstRepeated [] (d.nodes.map (·.id)) = none :=
    firstRepeated_eq_none_iff.2 ⟨h.distinct, by simp⟩
  refine ⟨pairs, order, hpairs, hgreedy, ?_⟩
  rw [acyclic_joins_iff h.distinct hpairs]
  rcases hcases with ⟨hacyclic, hedges⟩ | ⟨hcyclic, hedges⟩
  · refine .inl ⟨hacyclic, ?_⟩
    simp [layout, hfirst, hasKind_iff.2 h.input, hasKind_iff.2 h.output, hpairs, hedges]
  · refine .inr ⟨hcyclic, ?_⟩
    simp [layout, hfirst, hasKind_iff.2 h.input, hasKind_iff.2 h.output, hpairs, hedges]

theorem layout_of_not_isComplete (h : ¬d.IsComplete) :
    ∃ err, d.layout = .error err ∧ ∀ ids, err ≠ .cycle ids := by
  unfold layout
  cases hfirst : firstRepeated [] (d.nodes.map (·.id)) with
  | some id => exact ⟨_, rfl, nofun⟩
  | none =>
    cases hinput : d.hasKind .input with
    | false => exact ⟨.noInput, rfl, nofun⟩
    | true =>
      cases houtput : d.hasKind .output with
      | false => exact ⟨.noOutput, rfl, nofun⟩
      | true =>
        cases hpairs : d.edges.mapM d.ends with
        | error err =>
          obtain ⟨e, -, herr⟩ := exists_of_mapM_eq_error hpairs
          exact ⟨err, rfl, ends_ne_cycle herr⟩
        | ok pairs =>
          refine absurd ?_ h
          have hdistinct := (firstRepeated_eq_none_iff.1 hfirst).1
          refine ⟨hdistinct, hasKind_iff.1 hinput, hasKind_iff.1 houtput, ?_⟩
          intro e he
          obtain ⟨s, t, -, hs, ht⟩ := exists_places hpairs he
          rw [indexOf?_eq_some_iff hdistinct] at hs ht
          exact ⟨List.mem_of_getElem? hs, List.mem_of_getElem? ht⟩

theorem layout_eq_ok {l : Layout} (h : d.layout = .ok l) :
    d.IsValid ∧ ∃ pairs, d.edges.mapM d.ends = .ok pairs ∧
      Greedy d.nodes.length pairs [] l.order ∧
      l.sources = (List.range d.nodes.length).map (sourcesOf pairs) := by
  by_cases hcomplete : d.IsComplete
  · obtain ⟨pairs, order, hpairs, hgreedy, ⟨hacyclic, heq⟩ | ⟨-, heq⟩⟩ :=
      layout_of_isComplete hcomplete
    · cases heq.symm.trans h
      exact ⟨⟨hcomplete, hacyclic⟩, pairs, hpairs, hgreedy, rfl⟩
    · cases heq.symm.trans h
  · obtain ⟨err, herr, -⟩ := layout_of_not_isComplete hcomplete
    cases herr.symm.trans h

theorem exists_layout (h : d.IsValid) : ∃ l, d.layout = .ok l := by
  obtain ⟨pairs, order, -, -, ⟨-, heq⟩ | ⟨hcyclic, -⟩⟩ := layout_of_isComplete h.toIsComplete
  · exact ⟨_, heq⟩
  · exact absurd h.acyclic hcyclic

open Classical in
theorem map_idAt_not_placed (h : d.IsComplete) (hpairs : d.edges.mapM d.ends = .ok pairs)
    {order : List Nat} (hgreedy : Greedy d.nodes.length pairs [] order) :
    ((List.range d.nodes.length).filter (· ∉ order)).map d.idAt =
      d.ids.filter (BehindCycle d.Joins ·) := by
  have hedges := lt_of_mem_pairs h.distinct hpairs
  rw [ids_eq_map_idAt, List.filter_map]
  refine congrArg (List.map d.idAt) (List.filter_congr fun i hi => ?_)
  have hi := List.mem_range.1 hi
  have hplaced := hgreedy.mem_iff_not_behindCycle (fun e he => (hedges e he).1) hi
  simp [hplaced, behindCycle_idAt_iff h.distinct hpairs hi]

open Classical in
/-- A document is accepted exactly if it is valid, and refused for a cycle exactly if all else is in
order; the nodes that are told are those on a cycle or behind one, in the order of the document. No
edge is counted down more often than it was counted. -/
theorem layout_ok_iff_isValid (d : Document) :
    ((∃ l, d.layout = .ok l) ↔ d.IsValid) ∧
    (∀ ids, d.layout = .error (.cycle ids) ↔
      d.IsComplete ∧ ¬Acyclic d.Joins ∧ ids = d.ids.filter (BehindCycle d.Joins ·)) ∧
    ∀ pairs, d.ids.Nodup → d.edges.mapM d.ends = .ok pairs →
      let a := Adjacency.ofEdges d.nodes.length pairs
      Countdown.Exact a.targets (.start a.degrees) := by
  refine ⟨⟨fun ⟨l, hl⟩ => (layout_eq_ok hl).1, exists_layout⟩, fun ids => ?_,
    fun pairs hd hpairs => Countdown.exact_start (lt_of_mem_pairs hd hpairs)⟩
  by_cases h : d.IsComplete
  · obtain ⟨pairs, order, hpairs, hgreedy, hcases⟩ := layout_of_isComplete h
    rw [map_idAt_not_placed h hpairs hgreedy] at hcases
    rcases hcases with ⟨hacyclic, heq⟩ | ⟨hcyclic, heq⟩
    · simp [heq, hacyclic]
    · simp [heq, h, hcyclic, eq_comm]
  · obtain ⟨err, herr, hne⟩ := layout_of_not_isComplete h
    simp [herr, h, hne ids]

/-- A node that an edge leads back to at once, and two edges from the same source. -/
def loopedDocument : Document where
  nodes := [
    ⟨"out", "Response", .output⟩,
    ⟨"a", "A", .function "1"⟩,
    ⟨"in", "Request", .input none⟩,
    ⟨"b", "B", .function "1"⟩]
  edges := [.between "in" "a", .between "in" "a", .between "a" "a", .between "a" "b",
    .between "b" "out"]

open Classical in
theorem loopedDocument_refused :
    loopedDocument.layout = .error (.cycle ["out", "a", "b"]) ∧ ¬loopedDocument.IsValid ∧
    ["out", "a", "b"] = loopedDocument.ids.filter (BehindCycle loopedDocument.Joins ·) ∧
    loopedDocument.ids.Nodup ∧
    loopedDocument.edges.mapM loopedDocument.ends =
      .ok [(2, 1), (2, 1), (1, 1), (1, 3), (3, 0)] ∧
    let a := Adjacency.ofEdges 4 [(2, 1), (2, 1), (1, 1), (1, 3), (3, 0)]
    Countdown.Exact a.targets (.start a.degrees) := by
  have hlayout : loopedDocument.layout = .error (.cycle ["out", "a", "b"]) := by
    with_unfolding_all rfl
  have hids : loopedDocument.ids.Nodup := by decide
  have hpairs : loopedDocument.edges.mapM loopedDocument.ends =
    .ok [(2, 1), (2, 1), (1, 1), (1, 3), (3, 0)] := rfl
  obtain ⟨hvalid, hcycle, hexact⟩ := layout_ok_iff_isValid loopedDocument
  refine ⟨hlayout, fun h => ?_, ((hcycle _).1 hlayout).2.2, hids, hpairs, hexact _ hids hpairs⟩
  obtain ⟨l, hl⟩ := hvalid.2 h
  cases hl.symm.trans hlayout

/-- An order of all nodes, by their places, that puts the source of each edge before its target. -/
structure IsOrder (d : Document) (order : List Nat) : Prop where
  perm : order.Perm (List.range d.nodes.length)
  precedes : ∀ e ∈ d.edges, ∀ s t, d.indexOf? e.source = some s → d.indexOf? e.target = some t →
    order.idxOf s < order.idxOf t

/-- Whether a node can be next behind others: it is not among them, and all its sources are. -/
structure CanFollow (d : Document) (before : List Nat) (i : Nat) : Prop where
  lt : i < d.nodes.length
  fresh : i ∉ before
  sources : ∀ e ∈ d.edges, d.indexOf? e.target = some i →
    ∃ s ∈ before, d.indexOf? e.source = some s

theorem canFollow_iff_isReady (hpairs : d.edges.mapM d.ends = .ok pairs) (hd : d.ids.Nodup)
    {before : List Nat} : d.CanFollow before i ↔ IsReady d.nodes.length pairs before i := by
  constructor
  · intro h
    refine ⟨h.lt, h.fresh, fun s hs => ?_⟩
    obtain ⟨e, he, hsource, htarget⟩ := (mem_pairs_iff hd hpairs).1 hs
    rw [← indexOf?_eq_some_iff hd] at hsource htarget
    obtain ⟨s', hs', heq⟩ := h.sources e he htarget
    cases hsource.symm.trans heq
    exact hs'
  · intro h
    refine ⟨h.lt, h.fresh, fun e he htarget => ?_⟩
    obtain ⟨s, t, hst, hs, ht⟩ := exists_places hpairs he
    cases htarget.symm.trans ht
    exact ⟨s, h.sources s hst, hs⟩

theorem IsOrder.canFollow {order : List Nat} (h : d.IsOrder order) (hd : d.IsComplete)
    {before rest : List Nat} (horder : order = before ++ i :: rest) : d.CanFollow before i := by
  subst horder
  have hnodup := h.perm.nodup_iff.2 List.nodup_range
  have hfresh : i ∉ before := fun hmem =>
    (List.nodup_append.1 hnodup).2.2 i hmem i List.mem_cons_self rfl
  refine ⟨List.mem_range.1 (h.perm.subset (by simp)), hfresh, fun e he htarget => ?_⟩
  obtain ⟨s, hs⟩ := List.getElem?_of_mem (hd.ends e he).1
  rw [← indexOf?_eq_some_iff hd.distinct] at hs
  refine ⟨s, ?_, hs⟩
  have hlt := h.precedes e he s i hs htarget
  -- A source that is not among the first nodes stands behind `i`.
  by_contra hmem
  simp only [List.idxOf_append, if_neg hmem, if_neg hfresh, List.idxOf_cons_self] at hlt
  omega

section
variable (hd : d.IsComplete) (hpairs : d.edges.mapM d.ends = .ok pairs) {order : List Nat}
  (hgreedy : Greedy d.nodes.length pairs [] order)
include hd hpairs hgreedy

theorem isOrder_of_greedy (hacyclic : Acyclic d.Joins) : d.IsOrder order := by
  have hedges := lt_of_mem_pairs hd.distinct hpairs
  have hnodup : order.Nodup := hgreedy.nodup_append List.nodup_nil
  have hall := (hgreedy.forall_mem_iff_acyclic (fun e he => (hedges e he).1)
    fun e he => (hedges e he).2).2 ((acyclic_joins_iff hd.distinct hpairs).1 hacyclic)
  constructor
  · refine (List.perm_ext_iff_of_nodup hnodup List.nodup_range).2 fun i => ?_
    rw [List.mem_range]
    exact ⟨hgreedy.lt_of_mem, hall i⟩
  · intro e he s t hs ht
    obtain ⟨s', t', hst, hs', ht'⟩ := exists_places hpairs he
    cases hs.symm.trans hs'
    cases ht.symm.trans ht'
    obtain ⟨before, rest, rfl⟩ := List.append_of_mem (hall t (hedges _ hst).2)
    have hready := (hgreedy.isLeast rfl).1
    have hmem : s ∈ before := by simpa using hready.sources s hst
    have hfresh : t ∉ before := by simpa using hready.fresh
    have hlt := List.idxOf_lt_length_of_mem hmem
    simp only [List.idxOf_append, if_pos hmem, if_neg hfresh, List.idxOf_cons_self]
    omega

end

theorem sourcesOf_map_some (hd : d.ids.Nodup) (hpairs : d.edges.mapM d.ends = .ok pairs)
    {t : Nat} (ht : d.ids[t]? = some id) :
    (sourcesOf pairs t).map some = (d.edges.filter (·.target == id)).map (d.indexOf? ·.source) := by
  have hindex := (indexOf?_eq_some_iff hd).2 ht
  have hends := mapM_eq_ok_iff.1 hpairs
  clear hpairs
  -- The ends of the edges are still looked up in the whole document.
  generalize d.edges = edges at hends ⊢
  induction edges generalizing pairs with
  | nil =>
    cases pairs with
    | nil => rfl
    | cons p rest => simp at hends
  | cons e edges ih =>
    cases pairs with
    | nil => simp at hends
    | cons p rest =>
      obtain ⟨s, t'⟩ := p
      obtain ⟨he, hrest⟩ := List.cons.inj hends
      obtain ⟨hsource, htarget⟩ := ends_eq_ok_iff.1 he
      have htargets : (t' == t) = (e.target == id) := by
        rw [Bool.eq_iff_iff, beq_iff_eq, beq_iff_eq]
        constructor
        · rintro rfl
          exact Option.some.inj (((indexOf?_eq_some_iff hd).1 htarget).symm.trans ht)
        · rintro rfl
          exact Option.some.inj (htarget.symm.trans hindex)
      have hsources := ih hrest
      unfold sourcesOf at hsources ⊢
      cases hinto : e.target == id with
      | true => simp [htargets, hinto, hsource, hsources]
      | false => simp [htargets, hinto, hsources]

theorem isOrder_of_layout {l : Layout} (h : d.layout = .ok l) : d.IsOrder l.order := by
  obtain ⟨hvalid, pairs, hpairs, hgreedy, -⟩ := layout_eq_ok h
  exact isOrder_of_greedy hvalid.toIsComplete hpairs hgreedy hvalid.acyclic

theorem sources_of_layout {l : Layout} (h : d.layout = .ok l) {t : Nat} {node : Node}
    (hnode : d.nodes[t]? = some node) : ∃ sources, l.sources[t]? = some sources ∧
      sources.map some = (d.edges.filter (·.target == node.id)).map (d.indexOf? ·.source) := by
  obtain ⟨hvalid, pairs, hpairs, -, hsources⟩ := layout_eq_ok h
  have hlt : t < d.nodes.length := (List.getElem?_eq_some_iff.1 hnode).1
  refine ⟨sourcesOf pairs t, by simp [hsources, hlt], ?_⟩
  exact sourcesOf_map_some hvalid.distinct hpairs (by simp [ids, hnode])

/-- The layout of a document is an order of its nodes, the least one by their places. Each time the
first node follows that can. The sources of a node are those of its edges, in their order. -/
theorem layout_order_least {l : Layout} (h : d.layout = .ok l) :
    d.IsOrder l.order ∧
    (∀ other, d.IsOrder other → l.order = other ∨ List.Lex (· < ·) l.order other) ∧
    (∀ before i rest, l.order = before ++ i :: rest → IsLeast {j | d.CanFollow before j} i) ∧
    l.sources.length = d.nodes.length ∧
    ∀ (t : Nat) (node : Node), d.nodes[t]? = some node → ∃ sources, l.sources[t]? = some sources ∧
      sources.map some = (d.edges.filter (·.target == node.id)).map (d.indexOf? ·.source) := by
  obtain ⟨hvalid, pairs, hpairs, hgreedy, hsources⟩ := layout_eq_ok h
  have hready (before : List Nat) (i : Nat) :
      d.CanFollow before i ↔ IsReady d.nodes.length pairs before i :=
    canFollow_iff_isReady hpairs hvalid.distinct
  refine ⟨isOrder_of_layout h, ?_, ?_, by simp [hsources], fun t node => sources_of_layout h⟩
  · intro other hother
    refine hgreedy.eq_or_lex ?_ fun i hi => by simpa using hother.perm.symm.subset (by simpa)
    intro before i rest heq
    exact (hready before i).1 (hother.canFollow hvalid.toIsComplete heq)
  · intro before i rest heq
    simpa only [hready, List.nil_append] using hgreedy.isLeast heq

def outputFirstDocument : Document where
  nodes := [
    ⟨"out", "Response", .output⟩,
    ⟨"b", "B", .function "1"⟩,
    ⟨"in", "Request", .input none⟩,
    ⟨"a", "A", .function "1"⟩]
  edges := [.between "in" "a", .between "in" "b", .between "a" "out", .between "b" "out"]

theorem outputFirstDocument_order :
    outputFirstDocument.layout = .ok ⟨[2, 1, 3, 0], [[3, 1], [2], [], [2]]⟩ ∧
    outputFirstDocument.IsOrder [2, 1, 3, 0] ∧
    ∀ other, outputFirstDocument.IsOrder other →
      [2, 1, 3, 0] = other ∨ List.Lex (· < ·) [2, 1, 3, 0] other := by
  have hlayout : outputFirstDocument.layout = .ok ⟨[2, 1, 3, 0], [[3, 1], [2], [], [2]]⟩ := by
    have hsome : outputFirstDocument.layout.toOption =
        some ⟨[2, 1, 3, 0], [[3, 1], [2], [], [2]]⟩ := by
      decide +kernel
    cases h : outputFirstDocument.layout with
    | error e =>
      rw [h] at hsome
      cases hsome
    | ok l =>
      rw [h] at hsome
      cases hsome
      rfl
  obtain ⟨horder, hleast, -⟩ := layout_order_least hlayout
  exact ⟨hlayout, horder, hleast⟩

end Document
end RuleGraph

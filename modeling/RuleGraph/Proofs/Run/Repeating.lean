import Mathlib.Data.List.Forall2
import RuleGraph.Proofs.Decision.WellFormed
import RuleGraph.Proofs.Value.Merging
/-!
# Edges that are repeated

An edge may be written twice: the nodes are executed in the same order, and each of them gets the
same input, since merging an output in twice is the same as merging it in once.
-/
namespace RuleGraph

/-- Lists of which the second one may have an item of the first one twice in a row. -/
inductive Repeats {α : Type} : List α → List α → Prop
  | same (items : List α) : Repeats items items
  | twice (before : List α) (a : α) (after : List α) :
    Repeats (before ++ a :: after) (before ++ a :: a :: after)

namespace Repeats
variable {α β : Type} {items items' : List α}

theorem map (h : Repeats items items') (f : α → β) : Repeats (items.map f) (items'.map f) := by
  cases h with
  | same => exact .same _
  | twice before a after => simpa using twice (before.map f) (f a) (after.map f)

theorem of_map_some (h : Repeats (items.map some) (items'.map some)) : Repeats items items' := by
  have hsome : Function.Injective (List.map (some (α := α))) :=
    List.map_injective_iff.2 (Option.some_injective α)
  generalize hitems : items.map some = mapped at h
  generalize hitems' : items'.map some = mapped' at h
  cases h with
  | same =>
    obtain rfl := hsome (hitems'.trans hitems.symm)
    exact .same _
  | twice =>
    obtain ⟨before, others, rfl, rfl, hothers⟩ := List.map_eq_append_iff.1 hitems
    obtain ⟨a, after, rfl, rfl, rfl⟩ := List.map_eq_cons_iff.1 hothers
    obtain rfl : items' = before ++ a :: a :: after := hsome (by simpa using hitems')
    exact .twice before a after

end Repeats

theorem Value.mergeAll_twice {vs : List Value} {v : Value} (hvs : ∀ w ∈ vs, w.Ordered)
    (hv : v.Ordered) (ws : List Value) :
    mergeAll (vs ++ v :: v :: ws) = mergeAll (vs ++ v :: ws) := by
  have htwice := (Ordered.mergeAll hvs).merge_merge hv
  simp only [mergeAll, List.foldl_append, List.foldl_cons] at htwice ⊢
  rw [htwice]

namespace Context
variable {c : Context} {positions positions' : List Nat} {vs : List Value}

def Ordered (c : Context) : Prop :=
  ∀ position v, c.output? position = some v → v.Ordered

theorem outputs_append (c : Context) (before after : List Nat) :
    c.outputs (before ++ after) = (do
      let vs ← c.outputs before
      let ws ← c.outputs after
      return vs ++ ws) := by
  induction before with
  | nil => simp [outputs]
  | cons position rest ih =>
    rw [List.cons_append, outputs, outputs]
    cases c.output? position with
    | none => rfl
    | some v =>
      rw [ih]
      cases c.outputs rest with
      | error fault => rfl
      | ok vs => cases c.outputs after <;> rfl

theorem Ordered.outputs (hc : c.Ordered) (h : c.outputs positions = .ok vs) :
    ∀ v ∈ vs, v.Ordered := by
  induction positions generalizing vs with
  | nil =>
    cases h
    exact List.forall_mem_nil _
  | cons position rest ih =>
    rw [Context.outputs] at h
    cases hv : c.output? position with
    | none =>
      rw [hv] at h
      cases h
    | some v =>
      rw [hv] at h
      obtain ⟨ws, hws, h⟩ := bind_eq_ok.1 h
      cases h
      exact List.forall_mem_cons.2 ⟨hc position v hv, ih hws⟩

theorem Ordered.nodeInput_of_repeats (hc : c.Ordered) (h : Repeats positions positions') :
    c.nodeInput positions' = c.nodeInput positions := by
  cases h with
  | same => rfl
  | twice before position after =>
    rw [nodeInput, nodeInput, outputs_append, outputs_append]
    cases hvs : c.outputs before with
    | error fault => rfl
    | ok vs =>
      rw [Context.outputs, Context.outputs]
      cases hv : c.output? position with
      | none => rfl
      | some v =>
        cases c.outputs after with
        | error fault => rfl
        | ok ws => exact congrArg Except.ok (Value.mergeAll_twice (hc.outputs hvs) (hc _ v hv) ws)

end Context

namespace Document
variable {d d' : Document}

/-- A document with an edge that stands right behind one between the same nodes. -/
structure RepeatsEdge (d' d : Document) : Prop where
  nodes : d'.nodes = d.nodes
  edges : ∃ before e e' after, d.edges = before ++ e :: after ∧
    d'.edges = before ++ e :: e' :: after ∧ e'.source = e.source ∧ e'.target = e.target

namespace RepeatsEdge
variable (h : d'.RepeatsEdge d)
include h

theorem ids : d'.ids = d.ids :=
  congrArg (List.map Node.id) h.nodes

theorem indexOf? : d'.indexOf? = d.indexOf? := by
  funext id
  rw [Document.indexOf?, h.nodes]
  rfl

theorem joins_iff {source target : String} : d'.Joins source target ↔ d.Joins source target := by
  obtain ⟨before, e, e', after, hedges, hedges', hsource, htarget⟩ := h.edges
  have hmem (e₀ : Edge) : e₀ ∈ d'.edges ↔ e₀ ∈ d.edges ∨ e₀ = e' := by
    simp only [hedges, hedges', List.mem_append, List.mem_cons]
    tauto
  constructor
  · rintro ⟨e₀, he₀, hends⟩
    rcases (hmem e₀).1 he₀ with he₀ | rfl
    · exact ⟨e₀, he₀, hends⟩
    · exact ⟨e, by simp [hedges], by rwa [← hsource, ← htarget]⟩
  · rintro ⟨e₀, he₀, hends⟩
    exact ⟨e₀, (hmem e₀).2 (.inl he₀), hends⟩

theorem isValid (hd : d.IsValid) : d'.IsValid where
  distinct := h.ids ▸ hd.distinct
  input := h.nodes ▸ hd.input
  output := h.nodes ▸ hd.output
  ends e he := by
    obtain ⟨e₀, he₀, hsource, htarget⟩ := h.joins_iff.1 ⟨e, he, rfl, rfl⟩
    rw [h.ids, ← hsource, ← htarget]
    exact hd.ends e₀ he₀
  acyclic := by
    have hjoins : d'.Joins = d.Joins := funext fun _ => funext fun _ => propext h.joins_iff
    rw [hjoins]
    exact hd.acyclic

theorem order {l l' : Layout} (hl : d.layout = .ok l) (hl' : d'.layout = .ok l') :
    l'.order = l.order := by
  obtain ⟨hvalid, pairs, hpairs, hgreedy, -⟩ := layout_eq_ok hl
  obtain ⟨hvalid', pairs', hpairs', hgreedy', -⟩ := layout_eq_ok hl'
  rw [h.nodes] at hgreedy'
  refine hgreedy.eq_of_mem_iff hgreedy' fun ⟨s, t⟩ => ?_
  rw [mem_pairs_iff hvalid'.distinct hpairs', mem_pairs_iff hvalid.distinct hpairs, h.ids]
  constructor
  · rintro ⟨e, he, hs, ht⟩
    obtain ⟨e₀, he₀, hsource, htarget⟩ := h.joins_iff.1 ⟨e, he, rfl, rfl⟩
    exact ⟨e₀, he₀, hsource ▸ hs, htarget ▸ ht⟩
  · rintro ⟨e, he, hs, ht⟩
    obtain ⟨e₀, he₀, hsource, htarget⟩ := h.joins_iff.2 ⟨e, he, rfl, rfl⟩
    exact ⟨e₀, he₀, hsource ▸ hs, htarget ▸ ht⟩

theorem repeats_sources (id : String) :
    Repeats ((d.edges.filter (·.target == id)).map (d.indexOf? ·.source))
      ((d'.edges.filter (·.target == id)).map (d'.indexOf? ·.source)) := by
  obtain ⟨before, e, e', after, hedges, hedges', hsource, htarget⟩ := h.edges
  rw [h.indexOf?, hedges, hedges']
  simp only [List.filter_append, List.filter_cons, htarget]
  split
  · simpa [hsource] using Repeats.twice _ (d.indexOf? e.source) _
  · exact .same _

end RepeatsEdge
end Document

/-- A node that does the same as another one and gets the same input. -/
structure Step.Agrees (step' step : Step) : Prop where
  id : step'.id = step.id
  name : step'.name = step.name
  program : step'.program = step.program
  input : ∀ c : Context, c.Ordered → c.inputOf step' = c.inputOf step

namespace Compiler
variable {c : Compiler} {d d' : Document} {key : Option String} {p p' : Decision}

section
variable (h : d'.RepeatsEdge d) (hp : c.compile d key = .ok p)
include h hp

theorem exists_compile_of_repeatsEdge : ∃ p', c.compile d' key = .ok p' := by
  obtain ⟨hvalid, hprograms⟩ := exists_compile_iff.1 ⟨p, hp⟩
  exact exists_compile_iff.2 ⟨h.isValid hvalid, h.nodes ▸ hprograms⟩

theorem agrees_of_repeatsEdge (hp' : c.compile d' key = .ok p') {position : Nat}
    {step step' : Step} (hstep : p.steps[position]? = some step)
    (hstep' : p'.steps[position]? = some step') : step'.Agrees step := by
  obtain ⟨l, i, node, hl, hi, hnode, hid, hname, -, hprogram⟩ := step_of_compile hp hstep
  obtain ⟨l', i', node', hl', hi', hnode', hid', hname', -, hprogram'⟩ :=
    step_of_compile hp' hstep'
  rw [h.order hl hl'] at hi'
  obtain rfl : i' = i := Option.some.inj (hi'.symm.trans hi)
  obtain rfl : node' = node := Option.some.inj (hnode'.symm.trans (h.nodes ▸ hnode))
  have hprograms : step'.program = step.program := Except.ok.inj (hprogram'.symm.trans hprogram)
  obtain ⟨m, -, places, hm, -, -, hsources, hplaces⟩ := sources_of_compile hp hstep
  obtain ⟨m', -, places', hm', -, -, hsources', hplaces'⟩ := sources_of_compile hp' hstep'
  have hrepeats := h.repeats_sources step.id
  rw [← hplaces, hid, ← hid', ← hplaces'] at hrepeats
  refine ⟨hid'.trans hid.symm, hname'.trans hname.symm, hprograms, fun c hc => ?_⟩
  rw [Context.inputOf, Context.inputOf, hprograms, hsources, hsources', h.order hm hm',
    hc.nodeInput_of_repeats (hrepeats.of_map_some.map m.order.idxOf)]

/-- A repeated edge has no effect on what is compiled but that one node may name a source twice. -/
theorem exists_agreeing_compile : ∃ p', c.compile d' key = .ok p' ∧
    List.Forall₂ Step.Agrees p'.steps p.steps := by
  obtain ⟨p', hp'⟩ := exists_compile_of_repeatsEdge h hp
  obtain ⟨l, hl, -⟩ := compile_eq_ok hp
  obtain ⟨l', hl', -⟩ := compile_eq_ok hp'
  have hids : (p'.steps.map Step.id).length = (p.steps.map Step.id).length := by
    rw [map_id_of_layout hp hl, map_id_of_layout hp' hl', h.order hl hl', List.length_map,
      List.length_map]
  rw [List.length_map, List.length_map] at hids
  refine ⟨p', hp', List.forall₂_iff_get.2 ⟨hids, fun i hi' hi => ?_⟩⟩
  exact agrees_of_repeatsEdge h hp hp' (List.getElem?_eq_getElem hi)
    (List.getElem?_eq_getElem hi')

end
end Compiler

/-- A path through objects leads in a merged value to what is no object in the later one, to the
objects of both, merged, and where the later one has objects without the next member, to what is
there in the earlier one. Merging again changes nothing, so no node notices that one of its edges is
repeated. -/
theorem Value.merge_pathwise :
    (∀ a b : Value, a.Ordered → b.Ordered →
      (∀ path, (a.merge b).memberAt path =
        match b.walk path with
        | .ends y => some (if y.isObject then (a.objectAt path).merge y else y)
        | .stops => a.memberAt path
        | .blocked => none) ∧
      (a.merge b).merge b = a.merge b ∧ a.merge a = a) ∧
    ∀ (c : Compiler) (d d' : Document) (key : Option String) (p : Decision),
      d'.RepeatsEdge d → c.compile d key = .ok p →
        ∃ p', c.compile d' key = .ok p' ∧ List.Forall₂ Step.Agrees p'.steps p.steps :=
  ⟨fun a _ ha hb => ⟨memberAt_merge hb a, ha.merge_merge hb, ha.merge_self⟩,
    fun _ _ _ _ _ h hp => Compiler.exists_agreeing_compile h hp⟩

def contact : Value :=
  .record [
    ("address", .record [("city", .string "Rome"), ("zip", .string "00100")]),
    ("name", .record [("first", .string "Ada")])]

def contactUpdate : Value :=
  .record [("address", .record [("city", .string "Paris")]), ("name", .string "Ada B.")]

/-- A request that is its own response, once with an edge that is written twice. -/
def echoDocument : Document where
  nodes := [⟨"in", "Request", .input none⟩, ⟨"out", "Response", .output⟩]
  edges := [.between "in" "out"]

def doubleEchoDocument : Document :=
  { echoDocument with edges := [.between "in" "out", ⟨"again", "in", "out"⟩] }

theorem contactUpdate_merged :
    contact.Ordered ∧ contactUpdate.Ordered ∧
    (contact.merge contactUpdate).memberAt ["address", "city"] = some (.string "Paris") ∧
    (contact.merge contactUpdate).memberAt ["address", "zip"] = some (.string "00100") ∧
    (contact.merge contactUpdate).memberAt ["name", "first"] = none ∧
    (contact.merge contactUpdate).merge contactUpdate = contact.merge contactUpdate ∧
    doubleEchoDocument.RepeatsEdge echoDocument ∧
    ∃ p p', Compiler.standard.compile echoDocument none = .ok p ∧
      Compiler.standard.compile doubleEchoDocument none = .ok p' ∧
      List.Forall₂ Step.Agrees p'.steps p.steps := by
  have hordered {city name : Value} {more : List (String × Value)} (hcity : city.Ordered)
      (hname : name.Ordered) (hmore : ∀ m ∈ more, m.2.Ordered) :
      (Value.record [("address", .record (("city", city) :: more)), ("name", name)]).Ordered := by
    refine .record (List.forall_mem_cons.2 ⟨.record ?_, List.forall_mem_singleton.2 hname⟩)
    exact List.forall_mem_cons.2 ⟨hcity, hmore⟩
  have hcontact : contact.Ordered := by
    refine hordered (.string _) (.record ?_) ?_
    · exact List.forall_mem_singleton.2 (.string _)
    · exact List.forall_mem_singleton.2 (.string _)
  have hupdate : contactUpdate.Ordered := hordered (.string _) (.string _) (List.forall_mem_nil _)
  have hedges : doubleEchoDocument.RepeatsEdge echoDocument :=
    ⟨rfl, [], .between "in" "out", ⟨"again", "in", "out"⟩, [], rfl, rfl, rfl, rfl⟩
  have hok : (Compiler.standard.compile echoDocument none).isOk := by decide +kernel
  obtain ⟨hvalues, hdocuments⟩ := Value.merge_pathwise
  obtain ⟨hpaths, htwice, -⟩ := hvalues contact contactUpdate hcontact hupdate
  refine ⟨hcontact, hupdate, hpaths _, hpaths _, hpaths _, htwice, hedges, ?_⟩
  cases hp : Compiler.standard.compile echoDocument none with
  | error e =>
    rw [hp] at hok
    cases hok
  | ok p =>
    obtain ⟨p', hp', hagrees⟩ := hdocuments _ _ _ _ p hedges hp
    exact ⟨p, p', rfl, hp', hagrees⟩

end RuleGraph

import Mathlib.Data.List.Count
import RuleGraph.Graph.Order
import RuleGraph.Proofs.Graph.Placement
/-!
# Counting down the edges of a graph

The edges into a node from nodes that are not placed are counted, and a node whose count is zero is
ready. So the least node that is ready is placed each time, and the counts that are left over are
those of nodes behind a cycle.
-/
namespace RuleGraph
variable {n i s t : Nat} {edges : List (Nat × Nat)} {placed : List Nat}

/-- The sources of the edges into a node, in the order of the edges. -/
def sourcesOf (edges : List (Nat × Nat)) (target : Nat) : List Nat :=
  (edges.filter (·.2 == target)).map Prod.fst

def targetsOf (edges : List (Nat × Nat)) (source : Nat) : List Nat :=
  (edges.filter (·.1 == source)).map Prod.snd

theorem mem_sourcesOf : s ∈ sourcesOf edges t ↔ (s, t) ∈ edges := by
  simp [sourcesOf]

theorem mem_targetsOf : t ∈ targetsOf edges s ↔ (s, t) ∈ edges := by
  simp [targetsOf]

theorem count_targetsOf (edges : List (Nat × Nat)) (s t : Nat) :
    (targetsOf edges s).count t = (sourcesOf edges t).count s := by
  simp only [targetsOf, sourcesOf, List.count, List.countP_map, List.countP_filter]
  refine List.countP_congr fun e _ => ?_
  simp [and_comm]

theorem modify_map_range {α : Type} (f : Nat → α) (g : α → α) (n i : Nat) :
    ((List.range n).map f).modify i g =
      (List.range n).map fun j => if i = j then g (f j) else f j := by
  refine List.ext_getElem (by simp) fun j hj _ => ?_
  simp [List.getElem_modify]

namespace Adjacency

theorem ofEdges_concat (n : Nat) (edges : List (Nat × Nat)) (e : Nat × Nat) :
    ofEdges n (edges ++ [e]) = (ofEdges n edges).join e := by
  simp [ofEdges]

/-- What the edges come to when they are added one after another. -/
theorem ofEdges_eq (n : Nat) (edges : List (Nat × Nat)) :
    ofEdges n edges = ⟨(List.range n).map (sourcesOf edges), (List.range n).map (targetsOf edges),
      (List.range n).map fun t => (sourcesOf edges t).length⟩ := by
  induction edges using List.reverseRecOn with
  | nil =>
    have hsources : sourcesOf [] = fun _ => [] := rfl
    have htargets : targetsOf [] = fun _ => [] := rfl
    simp [ofEdges, empty, hsources, htargets]
  | append_singleton edges e ih =>
    rw [ofEdges_concat, ih, join]
    simp only [modify_map_range, mk.injEq]
    refine ⟨?_, ?_, ?_⟩ <;> refine List.map_congr_left fun j _ => ?_ <;>
      split <;> simp_all [sourcesOf, targetsOf, List.filter_append]

end Adjacency

namespace Countdown

/-- The nodes that are placed, with their sources, and the counts of the others while edges to some
targets are still to be counted down. -/
structure Stands (n : Nat) (edges : List (Nat × Nat)) (placed todo : List Nat) (c : Countdown) :
    Prop where
  order : c.order = placed
  sources : ∀ t ∈ placed, ∀ s, (s, t) ∈ edges → s ∈ placed
  degrees : c.degrees = (List.range n).map fun t =>
    (sourcesOf edges t).countP (· ∉ placed) + todo.count t
  ready : ∀ i, i ∈ c.ready ↔ i < n ∧ i ∉ placed ∧ c.degrees[i]? = some 0
  nodup : c.ready.Nodup

variable {c : Countdown} {todo : List Nat}

theorem Stands.degrees_getElem? (h : c.Stands n edges placed todo) (ht : t < n) :
    c.degrees[t]? = some ((sourcesOf edges t).countP (· ∉ placed) + todo.count t) := by
  simp [h.degrees, ht]

theorem stands_start (n : Nat) (edges : List (Nat × Nat)) :
    (start (Adjacency.ofEdges n edges).degrees).Stands n edges [] [] := by
  rw [Adjacency.ofEdges_eq]
  constructor
  · rfl
  · simp
  · simp [start]
  · simp [start]
  · exact List.nodup_range.filter _

theorem countP_sourcesOf_eq_zero :
    (sourcesOf edges t).countP (· ∉ placed) = 0 ↔ ∀ s, (s, t) ∈ edges → s ∈ placed := by
  simp [List.countP_eq_zero, mem_sourcesOf]

theorem Stands.isReady_iff (h : c.Stands n edges placed []) :
    i ∈ c.ready ↔ IsReady n edges placed i := by
  rw [h.ready]
  constructor
  · rintro ⟨hi, hfresh, hzero⟩
    rw [h.degrees_getElem? hi] at hzero
    exact ⟨hi, hfresh, countP_sourcesOf_eq_zero.1 (by simpa using hzero)⟩
  · intro hi
    refine ⟨hi.lt, hi.fresh, ?_⟩
    rw [h.degrees_getElem? hi.lt, countP_sourcesOf_eq_zero.2 hi.sources, List.count_nil]

theorem Stands.waits_of_mem_targetsOf (h : c.Stands n edges placed [])
    (hi : IsReady n edges placed i) (ht : t ∈ targetsOf edges i) : t ∉ placed ++ [i] := by
  have hedge := mem_targetsOf.1 ht
  rw [List.mem_append, List.mem_singleton]
  rintro (hplaced | rfl)
  · exact hi.fresh (h.sources t hplaced i hedge)
  · exact hi.fresh (hi.sources t hedge)

theorem countP_concat (hi : i ∉ placed) (l : List Nat) :
    l.countP (· ∉ placed ++ [i]) + l.count i = l.countP (· ∉ placed) := by
  induction l with
  | nil => rfl
  | cons a l ih =>
    by_cases ha : a = i
    · subst ha
      simp [hi] at ih ⊢
      omega
    · by_cases hplaced : a ∈ placed <;> simp [ha, hplaced] at ih ⊢ <;> omega

theorem Stands.take (h : c.Stands n edges placed []) (hi : IsReady n edges placed i) :
    (c.take i).Stands n edges (placed ++ [i]) (targetsOf edges i) := by
  constructor
  · simp [Countdown.take, h.order]
  · intro t ht s hs
    rcases List.mem_append.1 ht with ht | ht
    · exact List.mem_append_left _ (h.sources t ht s hs)
    · rw [List.mem_singleton.1 ht] at hs
      exact List.mem_append_left _ (hi.sources s hs)
  · simp only [Countdown.take, h.degrees, count_targetsOf, countP_concat hi.fresh]
    simp
  · intro j
    simp only [Countdown.take, h.nodup.mem_erase_iff, h.ready, List.mem_append, List.mem_singleton]
    tauto
  · exact h.nodup.erase i

/-- There is an edge left to be counted down, so the count of its target is not zero. -/
theorem Stands.exists_left (h : c.Stands n edges placed (t :: todo)) (ht : t < n) :
    ∃ left, c.degrees[t]? = some (left + 1) :=
  ⟨_, by rw [h.degrees_getElem? ht, List.count_cons_self, ← Nat.add_assoc]⟩

theorem Stands.release (h : c.Stands n edges placed (t :: todo)) (ht : t < n)
    (hwaits : t ∉ placed) : (c.release t).Stands n edges placed todo := by
  obtain ⟨left, hleft⟩ := h.exists_left ht
  -- The edge itself is still counted, so its target cannot be ready.
  have hne : t ∉ c.ready := fun hmem => by
    have hzero := ((h.ready t).1 hmem).2.2
    simp [hleft] at hzero
  have hlt : t < c.degrees.length := (List.getElem?_eq_some_iff.1 hleft).1
  have hrelease : c.release t = { c with
      degrees := c.degrees.set t left
      ready := if left = 0 then t :: c.ready else c.ready } := by
    rw [Countdown.release, hleft]
  rw [hrelease]
  constructor
  · exact h.order
  · exact h.sources
  · have hcount := (h.degrees_getElem? ht).symm.trans hleft
    rw [List.count_cons_self, ← Nat.add_assoc, Option.some.injEq, Nat.add_right_cancel_iff]
      at hcount
    refine List.ext_getElem (by simp [h.degrees]) fun j hj _ => ?_
    by_cases hjt : t = j
    · subst hjt
      simp [← hcount]
    · simp [h.degrees, hjt]
  · intro j
    dsimp only
    by_cases hjt : t = j
    · subst hjt
      rw [List.getElem?_set_self hlt]
      split <;> simp_all
    · rw [List.getElem?_set_ne hjt, ← h.ready]
      split <;> simp [Ne.symm hjt]
  · dsimp only
    split
    · exact List.nodup_cons.2 ⟨hne, h.nodup⟩
    · exact h.nodup

theorem Stands.releaseAll (h : c.Stands n edges placed todo)
    (hwaits : ∀ t ∈ todo, t < n ∧ t ∉ placed) :
    (todo.foldl Countdown.release c).Stands n edges placed [] ∧
      ∀ done t rest, todo = done ++ t :: rest →
        ∃ left, (done.foldl Countdown.release c).degrees[t]? = some (left + 1) := by
  induction todo generalizing c with
  | nil => exact ⟨h, by simp⟩
  | cons first rest ih =>
    obtain ⟨hfirst, hrest⟩ := List.forall_mem_cons.1 hwaits
    obtain ⟨hstands, hcounts⟩ := ih (h.release hfirst.1 hfirst.2) hrest
    refine ⟨hstands, fun done t after hdone => ?_⟩
    cases done with
    | nil =>
      cases hdone
      exact h.exists_left hfirst.1
    | cons other done =>
      cases hdone
      exact hcounts done t after rfl

/-- A run in which no count goes below zero. -/
inductive Exact (targets : List (List Nat)) : Countdown → Prop
  | stuck {c : Countdown} (none : c.ready.min? = none) : Exact targets c
  | place {c : Countdown} {i : Nat} (least : c.ready.min? = some i)
      (counts : ∀ done t rest, targets.getD i [] = done ++ t :: rest →
        ∃ left, (done.foldl release (c.take i)).degrees[t]? = some (left + 1))
      (rest : Exact targets (c.place targets i)) : Exact targets c

section
variable (hedges : ∀ e ∈ edges, e.1 < n ∧ e.2 < n)
include hedges

/-- A node that is placed leaves the nodes behind that are ready then. -/
theorem Stands.place (h : c.Stands n edges placed []) (hi : IsReady n edges placed i) :
    (c.place ((List.range n).map (targetsOf edges)) i).Stands n edges (placed ++ [i]) [] ∧
      ∀ done t rest, ((List.range n).map (targetsOf edges)).getD i [] = done ++ t :: rest →
        ∃ left, (done.foldl Countdown.release (c.take i)).degrees[t]? = some (left + 1) := by
  have htargets : ((List.range n).map (targetsOf edges)).getD i [] = targetsOf edges i := by
    simp [hi.lt]
  rw [Countdown.place, htargets]
  refine (h.take hi).releaseAll fun t ht => ⟨?_, h.waits_of_mem_targetsOf hi ht⟩
  exact (hedges _ (mem_targetsOf.1 ht)).2

/-- A run places nodes in the greedy order, and no node is ready when it ends. -/
theorem Stands.run (h : c.Stands n edges placed []) :
    ∃ order, Greedy n edges placed order ∧
      (c.run ((List.range n).map (targetsOf edges))).Stands n edges (placed ++ order) [] ∧
      (c.run ((List.range n).map (targetsOf edges))).ready = [] ∧
      Exact ((List.range n).map (targetsOf edges)) c := by
  generalize htargets : (List.range n).map (targetsOf edges) = targets
  fun_induction Countdown.run targets c generalizing placed with
  | case1 c hnone =>
    have hempty := List.min?_eq_none_iff.1 hnone
    refine ⟨[], .stuck fun i hi => ?_, by simpa using h, hempty, .stuck hnone⟩
    simpa [hempty] using h.isReady_iff.2 hi
  | case2 c i hmin ih =>
    obtain ⟨hmem, hleast⟩ := List.min?_eq_some_iff.1 hmin
    have hready := h.isReady_iff.1 hmem
    obtain ⟨hplace, hcounts⟩ := h.place hedges hready
    rw [htargets] at hplace hcounts
    obtain ⟨order, hgreedy, hstands, hnone, hexact⟩ := ih hplace
    refine ⟨i :: order, .place ⟨hready, fun j hj => ?_⟩ hgreedy, by simpa using hstands, hnone,
      .place hmin hcounts hexact⟩
    exact hleast j (h.isReady_iff.2 hj)

end

theorem exact_start (hedges : ∀ e ∈ edges, e.1 < n ∧ e.2 < n) :
    Exact (Adjacency.ofEdges n edges).targets (start (Adjacency.ofEdges n edges).degrees) := by
  obtain ⟨_, -, -, -, hexact⟩ := (stands_start n edges).run hedges
  rw [Adjacency.ofEdges_eq] at hexact ⊢
  exact hexact

theorem Stands.degree_pos_iff (h : c.Stands n edges placed []) (hready : c.ready = [])
    (hi : i < n) :
    0 < c.degrees.getD i 0 ↔ i ∉ placed := by
  have hcount : c.degrees.getD i 0 = (sourcesOf edges i).countP (· ∉ placed) := by
    rw [List.getD_eq_getElem?_getD, h.degrees_getElem? hi]
    rfl
  rw [hcount]
  constructor
  · intro hpos hmem
    rw [countP_sourcesOf_eq_zero.2 (h.sources i hmem)] at hpos
    exact Nat.lt_irrefl 0 hpos
  · intro hfresh
    refine Nat.pos_of_ne_zero fun hzero => ?_
    have hmem := h.isReady_iff.2 ⟨hi, hfresh, countP_sourcesOf_eq_zero.1 hzero⟩
    simp [hready] at hmem

end Countdown

/-- A graph without a cycle is laid out in the greedy order, and of another one the nodes are told
that this order does not place. -/
theorem Layout.ofEdges_cases (hedges : ∀ e ∈ edges, e.1 < n ∧ e.2 < n) :
    ∃ order, Greedy n edges [] order ∧
      ((Acyclic fun s t => (s, t) ∈ edges) ∧
          ofEdges n edges = .ok ⟨order, (List.range n).map (sourcesOf edges)⟩ ∨
        (¬Acyclic fun s t => (s, t) ∈ edges) ∧
          ofEdges n edges = .error ((List.range n).filter (· ∉ order))) := by
  obtain ⟨order, hgreedy, hstands, hready, -⟩ := (Countdown.stands_start n edges).run hedges
  have hacyclic := hgreedy.forall_mem_iff_acyclic (fun e he => (hedges e he).1)
    fun e he => (hedges e he).2
  have hsources : (Adjacency.ofEdges n edges).sources = (List.range n).map (sourcesOf edges) := by
    rw [Adjacency.ofEdges_eq]
  have htargets : (Adjacency.ofEdges n edges).targets = (List.range n).map (targetsOf edges) := by
    rw [Adjacency.ofEdges_eq]
  dsimp only [ofEdges]
  rw [hsources, htargets]
  generalize (Countdown.start (Adjacency.ofEdges n edges).degrees).run _ = c at hstands hready ⊢
  rw [List.nil_append] at hstands
  rw [hstands.order]
  refine ⟨order, hgreedy, ?_⟩
  by_cases hlt : order.length < n
  · have hleft : (List.range n).filter (0 < c.degrees.getD · 0) =
        (List.range n).filter (· ∉ order) :=
      List.filter_congr fun i hi => by
        rw [decide_eq_decide.2 (hstands.degree_pos_iff hready (List.mem_range.1 hi))]
    rw [if_pos hlt, hleft]
    exact .inr ⟨fun h => hgreedy.length_lt_iff.1 hlt (hacyclic.2 h), rfl⟩
  · rw [if_neg hlt]
    exact .inl ⟨hacyclic.1 (not_not.1 fun h => hlt (hgreedy.length_lt_iff.2 h)), rfl⟩

end RuleGraph

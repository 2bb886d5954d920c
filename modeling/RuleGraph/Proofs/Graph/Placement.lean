import Mathlib.Data.List.Nodup
import Mathlib.Order.Bounds.Defs
import RuleGraph.Proofs.Graph.Cycle
/-!
# How nodes are placed

Each time the least node is placed whose sources all are, until there is none. What is left then
are the nodes behind a cycle, and no other order that puts sources first is less.
-/
namespace RuleGraph
variable {n i : Nat} {edges : List (Nat × Nat)} {placed : List Nat}

structure IsReady (n : Nat) (edges : List (Nat × Nat)) (placed : List Nat) (i : Nat) : Prop where
  lt : i < n
  fresh : i ∉ placed
  sources : ∀ s, (s, i) ∈ edges → s ∈ placed

/-- Nodes that are placed one after another behind others: each the least one that is ready, until
none is. -/
inductive Greedy (n : Nat) (edges : List (Nat × Nat)) : List Nat → List Nat → Prop
  | stuck {placed : List Nat} (none : ∀ i, ¬IsReady n edges placed i) : Greedy n edges placed []
  | place {placed others : List Nat} {i : Nat} (least : IsLeast {j | IsReady n edges placed j} i)
      (rest : Greedy n edges (placed ++ [i]) others) : Greedy n edges placed (i :: others)

namespace Greedy
variable {order : List Nat}

/-- Each node of a greedy order is the least one that is ready behind those before it. -/
theorem isLeast (h : Greedy n edges placed order) {before rest : List Nat}
    (horder : order = before ++ i :: rest) :
    IsLeast {j | IsReady n edges (placed ++ before) j} i := by
  induction h generalizing before with
  | stuck none => simp at horder
  | place least _ ih =>
    cases before with
    | nil =>
      cases horder
      simpa using least
    | cons j before =>
      cases horder
      simpa using ih rfl

theorem not_isReady (h : Greedy n edges placed order) (i : Nat) :
    ¬IsReady n edges (placed ++ order) i := by
  induction h with
  | stuck none => simpa using none i
  | place _ _ ih => simpa using ih

theorem nodup_append (h : Greedy n edges placed order) (hplaced : placed.Nodup) :
    (placed ++ order).Nodup := by
  induction h with
  | stuck _ => simpa using hplaced
  | place least _ ih =>
    have hfresh := least.1.fresh
    have hnext := hplaced.concat hfresh
    rw [List.concat_eq_append] at hnext
    simpa using ih hnext

theorem lt_of_mem (h : Greedy n edges placed order) (hi : i ∈ order) : i < n := by
  obtain ⟨before, rest, rfl⟩ := List.append_of_mem hi
  exact (h.isLeast rfl).1.lt

theorem length_lt_iff (h : Greedy n edges [] order) : order.length < n ↔ ¬∀ i < n, i ∈ order := by
  have hnodup : order.Nodup := h.nodup_append List.nodup_nil
  have hsub : order.Subperm (List.range n) :=
    hnodup.subperm fun i hi => List.mem_range.2 (h.lt_of_mem hi)
  rw [← not_le, not_iff_not]
  constructor
  · intro hle i hi
    exact (hsub.perm_of_length_le (by simpa using hle)).mem_iff.2 (List.mem_range.2 hi)
  · intro hall
    have hle := (List.nodup_range.subperm fun i hi => hall i (List.mem_range.1 hi)).length_le
    simpa using hle

theorem not_mem_of_sources {P : Nat → Prop} (h : Greedy n edges placed order)
    (hP : ∀ i, P i → ∃ s, (s, i) ∈ edges ∧ P s) (hplaced : ∀ i ∈ placed, ¬P i) :
    ∀ i ∈ order, ¬P i := by
  -- The first of them to be placed would have a source among those placed before.
  induction h with
  | stuck _ => simp
  | @place placed _ i least _ ih =>
    have hi : ¬P i := by
      intro hi
      obtain ⟨s, hs, hPs⟩ := hP i hi
      exact hplaced s (least.1.sources s hs) hPs
    refine List.forall_mem_cons.2 ⟨hi, ih ?_⟩
    intro j hj
    rcases List.mem_append.1 hj with hj | hj
    · exact hplaced j hj
    · rwa [List.mem_singleton.1 hj]

section
variable (hedges : ∀ e ∈ edges, e.1 < n)
include hedges

/-- A greedy order places exactly the nodes that are not behind a cycle. -/
theorem mem_iff_not_behindCycle (h : Greedy n edges [] order) (hi : i < n) :
    i ∈ order ↔ ¬BehindCycle (fun s t => (s, t) ∈ edges) i := by
  constructor
  · exact fun hmem => h.not_mem_of_sources (fun _ hb => hb.exists_source) (by simp) i hmem
  · intro hbehind
    by_contra hmem
    -- A node that is left is not ready, so one of its sources is left as well.
    let Left := {j // j < n ∧ j ∉ order}
    have : Finite Left := Finite.of_injective (fun j : Left => (⟨j.1, j.2.1⟩ : Fin n))
      fun a b hab => Subtype.ext (congrArg Fin.val hab)
    have hsources (b : Left) : ∃ a : Left, (a.1, b.1) ∈ edges := by
      have hready := h.not_isReady b.1
      by_contra hnone
      refine hready ⟨b.2.1, by simpa using b.2.2, ?_⟩
      intro s hs
      by_contra hleft
      exact hnone ⟨⟨s, hedges _ hs, by simpa using hleft⟩, hs⟩
    have hcycle := behindCycle_of_forall_exists_source hsources ⟨i, hi, hmem⟩
    exact hbehind (hcycle.map Subtype.val fun _ _ => id)

/-- A greedy order leaves no node out exactly if there is no cycle. -/
theorem forall_mem_iff_acyclic (hends : ∀ e ∈ edges, e.2 < n) (h : Greedy n edges [] order) :
    (∀ i < n, i ∈ order) ↔ Acyclic fun s t => (s, t) ∈ edges := by
  rw [acyclic_iff_forall_not_behindCycle]
  constructor
  · intro hall i hbehind
    obtain ⟨s, hs, -⟩ := hbehind.exists_source
    have hi := hends _ hs
    exact (h.mem_iff_not_behindCycle hedges hi).1 (hall i hi) hbehind
  · intro hnone i hi
    exact (h.mem_iff_not_behindCycle hedges hi).2 (hnone i)

end

/-- No order is less than a greedy one if it places every node when it is ready: at the first
difference the greedy order has the least node that is ready, and the other one another. -/
theorem eq_or_lex (h : Greedy n edges placed order) {other : List Nat}
    (hready : ∀ before i rest, other = before ++ i :: rest → IsReady n edges (placed ++ before) i)
    (hall : ∀ i < n, i ∈ placed ++ other) : order = other ∨ List.Lex (· < ·) order other := by
  induction h generalizing other with
  | @stuck placed none =>
    cases other with
    | nil => exact .inl rfl
    | cons j rest => exact .inr .nil
  | @place placed _ i least _ ih =>
    cases other with
    | nil => exact absurd (by simpa using hall i least.1.lt) least.1.fresh
    | cons j others =>
      have hj : IsReady n edges placed j := by simpa using hready [] j others rfl
      rcases (least.2 hj).lt_or_eq with hlt | rfl
      · exact .inr (.rel hlt)
      · have hothers : ∀ before k tail, others = before ++ k :: tail →
            IsReady n edges (placed ++ [i] ++ before) k := by
          rintro before k tail rfl
          simpa using hready (i :: before) k tail rfl
        rcases ih hothers (by simpa using hall) with rfl | hlex
        · exact .inl rfl
        · exact .inr (.cons hlex)

/-- A greedy order depends only on which nodes are joined, and not on how often. -/
theorem eq_of_mem_iff {edges' : List (Nat × Nat)} {other : List Nat}
    (h : Greedy n edges placed order) (h' : Greedy n edges' placed other)
    (hedges : ∀ e, e ∈ edges' ↔ e ∈ edges) : other = order := by
  have hready (placed : List Nat) (i : Nat) :
      IsReady n edges' placed i ↔ IsReady n edges placed i :=
    ⟨fun hi => ⟨hi.lt, hi.fresh, fun s hs => hi.sources s ((hedges _).2 hs)⟩,
      fun hi => ⟨hi.lt, hi.fresh, fun s hs => hi.sources s ((hedges _).1 hs)⟩⟩
  induction h generalizing other with
  | stuck none =>
    cases h' with
    | stuck _ => rfl
    | place least _ => exact absurd ((hready _ _).1 least.1) (none _)
  | place least _ ih =>
    cases h' with
    | stuck none => exact absurd ((hready _ _).2 least.1) (none _)
    | place least' rest' =>
      simp only [hready] at least'
      obtain rfl := Nat.le_antisymm (least.2 least'.1) (least'.2 least.1)
      rw [ih rest']

end Greedy

end RuleGraph

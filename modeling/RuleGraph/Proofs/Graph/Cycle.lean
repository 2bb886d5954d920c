import Mathlib.Data.Fintype.Pigeonhole
import Mathlib.Logic.Relation
/-!
# Cycles

What lies on a cycle of a relation or can be reached from one. It always has a predecessor of the
same kind, and where each of finitely many things has a predecessor among them, all of them are
behind a cycle.
-/
namespace RuleGraph
open Relation
variable {α β : Type} {r : α → α → Prop} {r' : β → β → Prop}

/-- No way along a relation leads back to where it began. -/
def Acyclic (r : α → α → Prop) : Prop :=
  ∀ a, ¬TransGen r a a

/-- Whether something lies on a cycle of a relation or can be reached from one. -/
def BehindCycle (r : α → α → Prop) (b : α) : Prop :=
  ∃ a, TransGen r a a ∧ ReflTransGen r a b

theorem acyclic_iff_forall_not_behindCycle : Acyclic r ↔ ∀ b, ¬BehindCycle r b := by
  constructor
  · rintro hacyclic b ⟨a, hcycle, -⟩
    exact hacyclic a hcycle
  · intro h a hcycle
    exact h a ⟨a, hcycle, .refl⟩

theorem BehindCycle.map {b : α} (h : BehindCycle r b) (f : α → β)
    (hf : ∀ a b, r a b → r' (f a) (f b)) : BehindCycle r' (f b) := by
  obtain ⟨a, hcycle, hreach⟩ := h
  exact ⟨f a, hcycle.lift f hf, hreach.lift f hf⟩

theorem BehindCycle.exists_source {b : α} (h : BehindCycle r b) :
    ∃ a, r a b ∧ BehindCycle r a := by
  obtain ⟨c, hcycle, hreach⟩ := h
  rcases hreach.cases_tail with rfl | ⟨a, hca, hab⟩
  · obtain ⟨a, hca, hab⟩ := TransGen.tail'_iff.1 hcycle
    exact ⟨a, hab, b, hcycle, hca⟩
  · exact ⟨a, hab, c, hcycle, hca⟩

theorem reflTransGen_iterate {f : α → α} (hf : ∀ a, r (f a) a) (a : α) (k : Nat) :
    ReflTransGen r (f^[k] a) a := by
  induction k with
  | zero => exact .refl
  | succ k ih =>
    rw [Function.iterate_succ_apply']
    exact .head (hf _) ih

/-- Going from predecessor to predecessor comes back to some place, since there are only finitely
many: what lies between two visits of it is a cycle. -/
theorem behindCycle_of_forall_exists_source [Finite α] (h : ∀ b, ∃ a, r a b) (b : α) :
    BehindCycle r b := by
  choose f hf using h
  obtain ⟨k, l, hne, heq⟩ := Finite.exists_ne_map_eq_of_infinite fun k : Nat => f^[k] b
  wlog hlt : k < l generalizing k l
  · exact this l k hne.symm heq.symm (by omega)
  obtain ⟨d, rfl⟩ : ∃ d, l = d + 1 + k := ⟨l - k - 1, by omega⟩
  have hback : f^[d + 1] (f^[k] b) = f^[k] b := by
    rw [← Function.iterate_add_apply]
    exact heq.symm
  refine ⟨f^[k] b, ?_, reflTransGen_iterate hf b k⟩
  rw [Function.iterate_succ_apply'] at hback
  have hcycle := TransGen.head' (hf (f^[d] (f^[k] b))) (reflTransGen_iterate hf (f^[k] b) d)
  rwa [hback] at hcycle

end RuleGraph

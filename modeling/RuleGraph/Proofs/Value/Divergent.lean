import RuleGraph.Proofs.Value.Lens
/-!
# Storing under divergent paths

Of two divergent paths neither begins with the other. What is stored under one of them is not in the
way of the other, so either may be stored first.
-/
namespace RuleGraph

namespace Members
variable {α : Type} {key other : String}

theorem insert_of_lt (h : key < other) (a b : α) (rest : List (String × α)) :
    insert key a ((other, b) :: rest) = (key, a) :: (other, b) :: rest := by
  have hne : key ≠ other := fun heq => String.lt_irrefl other (heq ▸ h)
  rw [insert, if_neg hne, if_pos h]

theorem insert_of_gt (h : other < key) (a b : α) (rest : List (String × α)) :
    insert key a ((other, b) :: rest) = (other, b) :: insert key a rest := by
  have hne : key ≠ other := fun heq => String.lt_irrefl other (heq ▸ h)
  rw [insert, if_neg hne, if_neg (String.lt_asymm h)]

theorem insert_comm_of_lt (h : key < other) (a b : α) (members : List (String × α)) :
    insert other b (insert key a members) = insert key a (insert other b members) := by
  induction members with
  | nil =>
    change insert other b [(key, a)] = insert key a [(other, b)]
    rw [insert_of_gt h, insert_of_lt h, insert]
  | cons m rest ih =>
    obtain ⟨k, c⟩ := m
    rcases Std.lt_trichotomy key k with hk | rfl | hk
    · -- The smaller key comes first, whatever the greater one is put before.
      rw [insert_of_lt hk, insert_of_gt h, insert]
      split
      · rw [insert_of_lt h]
      · split
        · rw [insert_of_lt h]
        · rw [insert_of_lt hk]
    · rw [insert, if_pos rfl, insert_of_gt h, insert_of_gt h, insert, if_pos rfl]
    · have hother : k < other := String.lt_trans hk h
      rw [insert_of_gt hk, insert_of_gt hother, insert_of_gt hother, insert_of_gt hk, ih]

theorem insert_comm (h : key ≠ other) (a b : α) (members : List (String × α)) :
    insert other b (insert key a members) = insert key a (insert other b members) := by
  rcases Std.lt_trichotomy key other with hlt | heq | hgt
  · exact insert_comm_of_lt hlt a b members
  · exact absurd heq h
  · exact (insert_comm_of_lt hgt b a members).symm

end Members

/-- Two paths of which neither begins with the other. -/
def Diverge (path other : List String) : Prop :=
  ¬path <+: other ∧ ¬other <+: path

instance (path other : List String) : Decidable (Diverge path other) :=
  inferInstanceAs (Decidable (_ ∧ _))

namespace Diverge
variable {key : String} {path other : List String}

theorem symm (h : Diverge path other) : Diverge other path :=
  ⟨h.2, h.1⟩

theorem tail (h : Diverge (key :: path) (key :: other)) : Diverge path other := by
  have hcons (p q : List String) (hpq : ¬key :: p <+: key :: q) : ¬p <+: q := by
    simpa only [List.cons_prefix_cons, true_and] using hpq
  exact ⟨hcons path other h.1, hcons other path h.2⟩

end Diverge

namespace Value

theorem setMember_comm {key other : String} (h : key ≠ other) (v x y : Value) :
    (v.setMember key x).setMember other y = (v.setMember other y).setMember key x :=
  congrArg object (Members.insert_comm h x y v.members)

/-- The two paths part at some key, so the induction follows what they have in common. -/
theorem setPath_comm {path other : List String} (h : Diverge path other) (v x y : Value) :
    (v.setPath path x).setPath other y = (v.setPath other y).setPath path x := by
  induction path generalizing other v with
  | nil => exact absurd List.nil_prefix h.1
  | cons key rest ih =>
    cases other with
    | nil => exact absurd List.nil_prefix h.2
    | cons key' rest' =>
      simp only [setPath_cons]
      by_cases hkey : key = key'
      · subst hkey
        have hrest := ih h.tail ((v.get? key).getD empty)
        simp only [get?_setMember_self, Option.getD_some, setMember_setMember, hrest]
      · rw [get?_setMember_of_ne (Ne.symm hkey), get?_setMember_of_ne hkey, setMember_comm hkey]

end Value
end RuleGraph

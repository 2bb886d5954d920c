import Mathlib
import RuleGraph.Json.Reader
import RuleGraph.Proofs.Number.ReadBack
import RuleGraph.Proofs.Value.Ordered
/-!
# Trees of a text

What is read from a JSON text has integers of 64 bits, finite decimals, and members in order. A
decimal that is too large has no value, so no scaling by a power of ten ends beyond the greatest
number.
-/
namespace RuleGraph

/-- The trees that JSON texts have: integers of 64 bits with or without a sign, finite decimals, and
objects with the members in the order of their keys, one for each key. -/
inductive Json.WellFormed : Json → Prop
  | null : WellFormed .null
  | bool (b : Bool) : WellFormed (.bool b)
  | integer {n : Int} (hlow : -2 ^ 63 ≤ n) (hhigh : n < 2 ^ 64) : WellFormed (.integer n)
  | decimal {x : Float} (h : x.isFinite) : WellFormed (.decimal x)
  | string (s : String) : WellFormed (.string s)
  | array {items : List Json} (h : ∀ j ∈ items, j.WellFormed) : WellFormed (.array items)
  | object {members : List (String × Json)} (hsorted : Members.Sorted members)
    (h : ∀ m ∈ members, m.2.WellFormed) : WellFormed (.object members)

namespace Number
open Float.Model UnpackedFloat

theorem atLeastOne_of_one_le {x : Float} {m : Nat} {e : Int} {hm : 0 < m}
    (hx : x.toModel.unpack = .finite .positive m e hm) (hone : (1 : ℚ) ≤ m * 2 ^ e) :
    AtLeastOne x.toModel.unpack := by
  obtain ⟨hlt, -, hgreatest, hfull⟩ := unpack_eq_finite hx
  have hexponent : -52 ≤ e := by
    by_contra h
    have hsmall : (m : ℚ) * 2 ^ e < 1 :=
      calc (m : ℚ) * 2 ^ e < 2 ^ 53 * 2 ^ e := by
            have hm' : (m : ℚ) < 2 ^ 53 := by exact_mod_cast hlt
            exact mul_lt_mul_of_pos_right hm' (by positivity)
        _ ≤ 2 ^ 53 * 2 ^ (-53 : Int) :=
          mul_le_mul_of_nonneg_left (zpow_le_zpow_right₀ one_le_two (by omega)) (by positivity)
        _ = 1 := by norm_num
    exact absurd hone (not_le.2 hsmall)
  exact .inr ⟨m, e, hm, hx, by omega, hlt, hexponent, hgreatest⟩

theorem atLeastOne_ofScientific {e : Nat} (he : e ≤ 2048) :
    AtLeastOne (Float.ofScientific 1 false e).toModel.unpack := by
  rw [Float.ofScientific]
  split
  · -- The power of ten is a number.
    next h =>
    obtain ⟨hm, hunpack⟩ := unpack_toFloat Nat.one_ne_zero (by decide)
    obtain ⟨p, f, hp, hpower, hvalue⟩ := exists_unpack_power (Nat.lt_succ_of_le h.2)
    have hlog : Nat.log2 1 = 0 := rfl
    have hone := atLeastOne_of_one_le hunpack (by norm_num [hlog])
    have hten := atLeastOne_of_one_le hpower (hvalue ▸ one_le_pow₀ (by norm_num))
    exact hone.mul hten
  · -- The power of ten is rounded; it comes with 53 zeros, so that no digit is missing.
    change AtLeastOne (unpack format (pack format (UnpackedFloat.ofScientific format 1 e)))
    have hlog : 53 ≤ (1 * 2 ^ 53 * 10 ^ e).log2 :=
      (Nat.le_log2 (by positivity)).2 (Nat.le_mul_of_pos_right _ (by positivity))
    rw [unpackedOfScientific_natCast Nat.one_ne_zero he]
    exact atLeastOne_roundWithAccuracy (by omega) (by omega)

theorem atLeastOne_ofDecimal {e : Int} (hlow : 0 ≤ e) (hhigh : e ≤ 310) :
    AtLeastOne (ofDecimal 1 e).toModel.unpack := by
  have hsize : ((Nat.log2 1 : Nat) : Int) * 30103 / 100000 + e = e := Int.zero_add e
  rw [ofDecimal, hsize, if_neg (by omega), if_neg (by omega), decide_eq_false (by omega)]
  exact atLeastOne_ofScientific (by omega)

theorem isFinite_or_isInf {u : UnpackedFloat} (hu : u ≠ .notANumber) :
    (unpack format (pack format u)).isFinite ∨ (unpack format (pack format u)).isInf := by
  cases u with
  | notANumber => contradiction
  | infinity s =>
    right
    rw [unpack_pack_infinity]
    rfl
  | zero s => exact .inl (isFinite_unpack_pack_zero s)
  | finite s m e hm =>
    by_cases he : e ≤ 971
    · exact .inl (isFinite_unpack_pack s hm he)
    · right
      rw [unpack_pack_overflow s (by omega)]
      rfl

theorem exists_unpack_of_ne_zero {x : Float} (hx : x.isFinite) (hzero : (x == 0) = false) :
    ∃ s m e hm, x.toModel.unpack = .finite s m e hm := by
  refine (unpack_of_isFinite hx).resolve_left fun ⟨s, hu⟩ => ?_
  have hbeq : (x == 0) = x.toModel.unpack.beq (0 : Float).toModel.unpack := rfl
  rw [hbeq, hu] at hzero
  cases s <;> cases hzero

theorem isFinite_mul_of_not_isInf {x y : Float} (hx : x.isFinite) (hzero : (x == 0) = false)
    (hy : AtLeastOne y.toModel.unpack) (hproduct : (x * y).isInf = false) : (x * y).isFinite := by
  obtain ⟨s, m, e, hm, hx⟩ := exists_unpack_of_ne_zero hx hzero
  have hdefined : UnpackedFloat.mul format x.toModel.unpack y.toModel.unpack ≠ .notANumber := by
    rw [hx]
    intro hmul
    obtain hy | ⟨n, f, hn, hy, -⟩ := hy
    · rw [hy] at hmul
      cases hmul
    · rw [hy, UnpackedFloat.mul, roundWithAccuracy_eq] at hmul
      split at hmul
      · cases hmul
      · split at hmul <;> cases hmul
  exact (isFinite_or_isInf hdefined).resolve_right (Bool.eq_false_iff.1 hproduct)

end Number

namespace Json

theorem isFinite_divideDown {x : Float} (hx : x.isFinite) (k e : Nat) :
    (divideDown k x e).isFinite := by
  induction k generalizing x e with
  | zero => exact hx
  | succ k ih =>
    rw [divideDown]
    split
    · exact hx
    · split
      · exact Number.isFinite_div hx (Number.atLeastOne_ofDecimal (by omega) (by omega))
      · exact ih (Number.isFinite_div hx (Number.atLeastOne_ofDecimal (by decide) (by decide))) _

theorem isFinite_of_scaleDecimal {m : Nat} {e : Int} {x : Float} (hm : m < 2 ^ 64)
    (h : scaleDecimal m e = some x) : x.isFinite := by
  have hfinite := Number.isFinite_ofNat hm
  simp only [scaleDecimal] at h
  split at h
  · exact Option.some.inj h ▸ isFinite_divideDown hfinite _ _
  · next hlow =>
    split at h
    · exact Option.some.inj h ▸ hfinite
    · next hzero =>
      split at h
      · cases h
      · next hhigh =>
        split at h
        · cases h
        · next hproduct =>
          rw [Bool.not_eq_true] at hzero hproduct
          exact Option.some.inj h ▸ Number.isFinite_mul_of_not_isInf hfinite hzero
            (Number.atLeastOne_ofDecimal (by omega) (by omega)) hproduct

theorem appendFitting_lt {n : Nat} (hn : n < 2 ^ 64) (digits : Bytes) :
    (appendFitting n digits).1 < 2 ^ 64 := by
  induction digits generalizing n with
  | nil => exact hn
  | cons b rest ih =>
    rw [appendFitting]
    split
    · next h => exact ih h
    · exact hn

theorem wellFormed_of_number {w : WrittenNumber} {j : Json} (h : w.toJson = some j) :
    j.WellFormed := by
  have hwhole := appendFitting_lt (n := 0) (by decide) w.whole
  have hfraction := appendFitting_lt hwhole w.fraction
  have hdecimal : ∀ {e}, (scaleDecimal (appendFitting (appendFitting 0 w.whole).1 w.fraction).1
      e).map (fun x => .decimal (Number.withSign w.negative x)) = some j → j.WellFormed := by
    intro e he
    obtain ⟨x, hx, rfl⟩ := Option.map_eq_some_iff.1 he
    refine .decimal ?_
    rw [Number.isFinite_withSign]
    exact isFinite_of_scaleDecimal hfraction hx
  simp only [WrittenNumber.toJson] at h
  generalize (appendFitting 0 w.whole).1 = n at *
  cases hnegative : w.negative with
  | false =>
    simp only [hnegative, Bool.false_eq_true, if_false] at h hdecimal
    split at h
    · cases h
      exact .integer (by omega) (by omega)
    · exact hdecimal h
  | true =>
    simp only [hnegative, if_true] at h hdecimal
    split at h
    · next hexact =>
      obtain ⟨-, hrange⟩ := Bool.and_eq_true_iff.1 hexact
      have hleast : n ≤ Nat.pow 2 63 := of_decide_eq_true (Bool.and_eq_true_iff.1 hrange).2
      cases h
      exact .integer (by rw [Nat.pow_eq] at hleast; omega) (by omega)
    · exact hdecimal h

mutual

theorem wellFormed_of_toJson {depth : Nat} {j : Json} :
    (w : Written) → w.toJson depth = some j → j.WellFormed
  | .null, h => by cases h; exact .null
  | .bool b, h => by cases h; exact .bool b
  | .number written, h => by
    obtain ⟨w, -, hw⟩ := Option.bind_eq_some_iff.1 h
    exact wellFormed_of_number hw
  | .string written, h => by
    obtain ⟨s, -, rfl⟩ := Option.map_eq_some_iff.1 h
    exact .string s
  | .array items, h => by
    rw [Written.toJson] at h
    split at h
    · cases h
    · obtain ⟨js, hjs, rfl⟩ := Option.map_eq_some_iff.1 h
      exact .array (wellFormed_of_itemsToJson items hjs)
  | .object members, h => by
    rw [Written.toJson] at h
    split at h
    · cases h
    · obtain ⟨pairs, hpairs, rfl⟩ := Option.map_eq_some_iff.1 h
      refine .object (Members.sorted_ofList pairs) fun m hm => ?_
      exact wellFormed_of_membersToJson members hpairs m (Members.mem_of_mem_ofList hm)

theorem wellFormed_of_itemsToJson {depth : Nat} {js : List Json} :
    (items : List Written) → Written.itemsToJson depth items = some js → ∀ j ∈ js, j.WellFormed
  | [], h => by cases h; exact nofun
  | w :: rest, h => by
    obtain ⟨j, hj, h⟩ := Option.bind_eq_some_iff.1 h
    obtain ⟨js, hjs, h⟩ := Option.bind_eq_some_iff.1 h
    cases h
    exact List.forall_mem_cons.2 ⟨wellFormed_of_toJson w hj, wellFormed_of_itemsToJson rest hjs⟩

theorem wellFormed_of_membersToJson {depth : Nat} {pairs : List (String × Json)} :
    (members : List (Bytes × Written)) → Written.membersToJson depth members = some pairs →
      ∀ m ∈ pairs, m.2.WellFormed
  | [], h => by cases h; exact nofun
  | (name, w) :: rest, h => by
    obtain ⟨key, -, h⟩ := Option.bind_eq_some_iff.1 h
    obtain ⟨j, hj, h⟩ := Option.bind_eq_some_iff.1 h
    obtain ⟨pairs, hpairs, h⟩ := Option.bind_eq_some_iff.1 h
    cases h
    exact List.forall_mem_cons.2
      ⟨wellFormed_of_toJson w hj, wellFormed_of_membersToJson rest hpairs⟩

end

/-- Every text that is read is read as one of these trees. -/
theorem wellFormed_of_read {bytes : Bytes} {j : Json} (h : Json.read bytes = some j) :
    j.WellFormed := by
  obtain ⟨w, -, hw⟩ := Option.bind_eq_some_iff.1 h
  exact wellFormed_of_toJson w hw

end Json

namespace Value

theorem isFinite_ofJson {j : Json} (h : j.WellFormed) : (ofJson j).isFinite := by
  induction h with
  | null | bool | string => rfl
  | integer hlow hhigh => exact Number.isFinite_ofInt (by omega)
  | decimal h => exact h
  | array h ih =>
    rw [ofJson, isFinite_array, ofItems_eq_map]
    exact List.forall_mem_map.2 ih
  | object hsorted h ih =>
    rw [ofJson, isFinite_object, ofMembers_eq_map]
    exact List.forall_mem_map.2 ih

theorem ordered_ofJson {j : Json} (h : j.WellFormed) : (ofJson j).Ordered := by
  induction h with
  | null => exact .null
  | bool b => exact .bool b
  | string s => exact .string s
  | integer | decimal => exact .number _
  | array h ih =>
    rw [ofJson, ofItems_eq_map]
    exact .array (List.forall_mem_map.2 ih)
  | object hsorted h ih =>
    rw [ofJson, ofMembers_eq_map]
    refine .object ?_ (List.forall_mem_map.2 ih)
    rw [Members.Sorted, List.map_map]
    exact hsorted

end Value

end RuleGraph

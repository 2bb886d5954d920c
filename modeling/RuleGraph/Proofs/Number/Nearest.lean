import Mathlib
import RuleGraph.Proofs.Number.Integers
/-!
# The nearest number

Every finite number is the result of rounding the reals in an interval around it. Two bits behind a
mantissa are enough to decide which number that is, however many digits are rounded off.
-/
namespace RuleGraph.Number
open Float.Model UnpackedFloat

/-- What a mantissa and its accuracy say of the exact value, in units of the mantissa. -/
def Locates (m : Nat) (a : Accuracy) (w : ℚ) : Prop :=
  match a with
  | .exact => w = m
  | .inexact .lt => m < w ∧ w < m + 1 / 2
  | .inexact .eq => w = m + 1 / 2
  | .inexact .gt => m + 1 / 2 < w ∧ w < m + 1

section
variable {m : Nat} {a : Accuracy} {w : ℚ}

theorem Locates.bounds (h : Locates m a w) : m ≤ w ∧ w < m + 1 := by
  cases a with
  | exact =>
    have h : w = m := h
    constructor <;> linarith
  | inexact half =>
    cases half <;> simp only [Locates] at h <;> constructor <;> linarith

/-- The mantissa is rounded to the nearest integer, and to an even one if there are two. -/
theorem Locates.roundToNearestEven_eq (h : Locates m a w) {n : Nat} (hlow : n - 1 / 2 ≤ w)
    (hhigh : w ≤ n + 1 / 2) (hodd : n % 2 = 1 → n - 1 / 2 < w ∧ w < n + 1 / 2) :
    a.roundToNearestEven m = n := by
  obtain ⟨hfloor, hfloor'⟩ := h.bounds
  have hn : n = m ∨ n = m + 1 := by
    have hle : (n : ℚ) < (m + 2 : Nat) := by push_cast; linarith
    have hge : (m : ℚ) < (n + 1 : Nat) := by push_cast; linarith
    rw [Nat.cast_lt] at hle hge
    omega
  have hsucc : n = m + 1 → (n : ℚ) = m + 1 := fun hn => by rw [hn, Nat.cast_succ]
  have hself : n = m → (n : ℚ) = m := congrArg _
  cases a with
  | exact =>
    have h : w = m := h
    refine (hn.resolve_right fun hn => ?_).symm
    linarith [hsucc hn]
  | inexact half =>
    cases half with
    | lt =>
      obtain ⟨-, h⟩ := h
      refine (hn.resolve_right fun hn => ?_).symm
      linarith [hsucc hn]
    | eq =>
      have h : w = m + 1 / 2 := h
      have heven : ¬n % 2 = 1 := fun hn2 => by
        obtain hn | hn := hn
        · linarith [hself hn, hodd hn2]
        · linarith [hsucc hn, hodd hn2]
      simp only [Accuracy.roundToNearestEven]
      omega
    | gt =>
      obtain ⟨h, -⟩ := h
      refine (hn.resolve_left fun hn => ?_).symm
      linarith [hself hn]

end

theorem locates_div (m : Nat) {n : Nat} (hn : 0 < n) :
    Locates (m / n) (accuracyOfFraction (m % n) n) (m / n) := by
  have hn' : (0 : ℚ) < n := by exact_mod_cast hn
  have hlt : ((m % n : Nat) : ℚ) < n := by exact_mod_cast Nat.mod_lt m hn
  have hdiv : (m : ℚ) / n = (m / n : Nat) + (m % n : Nat) / n := by
    have hm : (m : ℚ) = (m / n : Nat) * n + (m % n : Nat) := by
      exact_mod_cast (Nat.div_add_mod' m n).symm
    rw [div_eq_iff hn'.ne', add_mul, div_mul_cancel₀ _ hn'.ne', ← hm]
  rw [hdiv]
  generalize m / n = d, m % n = r at *
  unfold accuracyOfFraction
  split
  · next hr => simp [hr, Locates]
  · next hr =>
    have hpos : (0 : ℚ) < r / n := div_pos (by exact_mod_cast Nat.pos_of_ne_zero hr) hn'
    have hone : (r : ℚ) / n < 1 := (div_lt_one hn').2 hlt
    cases hcompare : compare (2 * r) n with
    | lt =>
      have hhalf : (r : ℚ) / n < 1 / 2 := by
        rw [div_lt_div_iff₀ hn' two_pos, one_mul, mul_comm]
        exact_mod_cast Nat.compare_eq_lt.1 hcompare
      exact ⟨by linarith, by linarith⟩
    | eq =>
      have hhalf : (r : ℚ) / n = 1 / 2 := by
        rw [div_eq_div_iff hn'.ne' two_ne_zero, one_mul, mul_comm]
        exact_mod_cast Nat.compare_eq_eq.1 hcompare
      exact congrArg _ hhalf
    | gt =>
      have hhalf : 1 / 2 < (r : ℚ) / n := by
        rw [div_lt_div_iff₀ two_pos hn', one_mul, mul_comm (r : ℚ)]
        exact_mod_cast Nat.compare_eq_gt.1 hcompare
      exact ⟨by linarith, by linarith⟩

theorem accuracy_ofMantissaAndAccuracy (m : Nat) (a : Accuracy) :
    (ExtendedMantissa.ofMantissaAndAccuracy m a).accuracy = a := by
  cases a with
  | exact => rfl
  | inexact half => cases half <;> rfl

theorem locates_shiftRightOne {em : ExtendedMantissa} {w : ℚ}
    (h : Locates em.mantissa em.accuracy w) :
    Locates em.shiftRightOne.mantissa em.shiftRightOne.accuracy (w / 2) := by
  obtain ⟨m, half, more⟩ := em
  have hm : (m : ℚ) = 2 * (m / 2 : Nat) + (m % 2 : Nat) := by
    exact_mod_cast (Nat.div_add_mod m 2).symm
  obtain hbit | hbit := Nat.mod_two_eq_zero_or_one m <;> rw [hbit] at hm <;>
    cases half <;> cases more <;>
    simp_all [Locates, ExtendedMantissa.accuracy, ExtendedMantissa.shiftRightOne] <;>
    (try constructor) <;> linarith

theorem locates_shiftRight {em : ExtendedMantissa} {w : ℚ}
    (h : Locates em.mantissa em.accuracy w) (k : Nat) :
    Locates (em >>> k).mantissa (em >>> k).accuracy (w / 2 ^ k) := by
  induction k with
  | zero => rwa [pow_zero, div_one]
  | succ k ih =>
    rw [pow_succ, ← div_div]
    exact locates_shiftRightOne ih

theorem Locates.rounded_eq {m : Nat} {e : Int} {a : Accuracy} {w : ℚ} (h : Locates m a w) {n : Nat}
    (hlow : n - 1 / 2 ≤ w / 2 ^ excess m e) (hhigh : w / 2 ^ excess m e ≤ n + 1 / 2)
    (hodd : n % 2 = 1 → n - 1 / 2 < w / 2 ^ excess m e ∧ w / 2 ^ excess m e < n + 1 / 2) :
    rounded m e a = n := by
  have hem : Locates (ExtendedMantissa.ofMantissaAndAccuracy m a).mantissa
      (ExtendedMantissa.ofMantissaAndAccuracy m a).accuracy w := by
    rwa [mantissa_ofMantissaAndAccuracy, accuracy_ofMantissaAndAccuracy]
  exact (locates_shiftRight hem _).roundToNearestEven_eq hlow hhigh hodd

/-- A mantissa and an exponent that a finite number has. -/
structure IsCanonical (m : Nat) (q : Int) : Prop where
  pos : 0 < m
  lt : m < 2 ^ 53
  least : -1074 ≤ q
  full : 2 ^ 52 ≤ m ∨ q = -1074

/-- Whether `v` lies in the interval of the reals that round to `m · 2 ^ q`. The gap below a power
of two is half as wide, the least exponent apart, and the ends round to an even mantissa. -/
structure RoundsTo (m : Nat) (q : Int) (v : ℚ) : Prop where
  low : (m - 1 / 2) * 2 ^ q ≤ v
  high : v ≤ (m + 1 / 2) * 2 ^ q
  narrow : m = 2 ^ 52 → -1074 < q → (m - 1 / 4) * 2 ^ q ≤ v
  odd : m % 2 = 1 → (m - 1 / 2) * 2 ^ q < v ∧ v < (m + 1 / 2) * 2 ^ q

theorem roundsTo_self (m : Nat) (q : Int) : RoundsTo m q (m * 2 ^ q) := by
  have hpos : (0 : ℚ) < 2 ^ q := by positivity
  constructor <;> intros <;> (try constructor) <;> nlinarith

section
variable {m n : Nat} {e q : Int} {a : Accuracy} {w : ℚ}

theorem Locates.log2_lt {k : Int} (h : Locates m a w) (hm : m ≠ 0) (hk : w * 2 ^ e < 2 ^ k) :
    (m.log2 : Int) + e < k := by
  have hlog : ((2 : ℚ) ^ m.log2) ≤ m := by exact_mod_cast Nat.log2_self_le hm
  refine (zpow_lt_zpow_iff_right₀ (one_lt_two (α := ℚ))).1 (lt_of_le_of_lt ?_ hk)
  rw [zpow_add₀ two_ne_zero, zpow_natCast]
  exact mul_le_mul_of_nonneg_right (hlog.trans h.bounds.1) (by positivity)

theorem Locates.le_log2 {k : Int} (h : Locates m a w) (hk : 2 ^ k ≤ w * 2 ^ e) :
    k ≤ (m.log2 : Int) + e := by
  have hlog : (m : ℚ) + 1 ≤ 2 ^ (m.log2 + 1) := by exact_mod_cast Nat.lt_log2_self (n := m)
  have hlt : (2 : ℚ) ^ k < 2 ^ ((m.log2 : Int) + 1 + e) := by
    refine lt_of_le_of_lt hk ?_
    rw [zpow_add₀ two_ne_zero, ← Nat.cast_succ, zpow_natCast]
    exact mul_lt_mul_of_pos_right (h.bounds.2.trans_le hlog) (by positivity)
  have := (zpow_lt_zpow_iff_right₀ one_lt_two).1 hlt
  omega

/-- With enough digits the exponent that rounding leads to is the least one, or that of the number
of 53 digits. -/
theorem add_excess (hdigits : 52 ≤ m.log2 ∨ e ≤ -1074) :
    e + excess m e = max ((m.log2 : Int) + e - 52) (-1074) := by
  rw [excess_eq]
  omega

theorem div_two_pow_excess (w : ℚ) (m : Nat) (e : Int) :
    w / 2 ^ excess m e = w * 2 ^ e / 2 ^ (e + excess m e) := by
  rw [zpow_add₀ two_ne_zero, zpow_natCast, ← div_div, mul_div_cancel_right₀]
  positivity

theorem RoundsTo.lt_two_zpow {v : ℚ} (hn : IsCanonical n q) (h : RoundsTo n q v) :
    v < (2 : ℚ) ^ (53 + q) := by
  have hlt : (n : ℚ) + 1 / 2 < 2 ^ 53 := by
    have : (n : ℚ) + 1 ≤ 2 ^ 53 := by exact_mod_cast hn.lt
    linarith
  rw [zpow_add₀ two_ne_zero]
  exact h.high.trans_lt (mul_lt_mul_of_pos_right (by exact_mod_cast hlt) (by positivity))

theorem RoundsTo.pos {v : ℚ} (hn : 0 < n) (h : RoundsTo n q v) : 0 < v := by
  have hone : (1 : ℚ) ≤ n := by exact_mod_cast hn
  refine lt_of_lt_of_le ?_ h.low
  have hpos : (0 : ℚ) < 2 ^ q := by positivity
  nlinarith

theorem RoundsTo.eq_of_lt {v : ℚ} (hn : 2 ^ 52 ≤ n) (h : RoundsTo n q v)
    (hv : v < 2 ^ (52 + q)) : n = 2 ^ 52 := by
  refine Nat.le_antisymm (Nat.not_lt.1 fun hlt => ?_) hn
  have hcast : (2 : ℚ) ^ 52 + 1 ≤ n := by exact_mod_cast hlt
  have hpos : (0 : ℚ) < 2 ^ q := by positivity
  have hsplit : (2 : ℚ) ^ (52 + q) = 2 ^ 52 * 2 ^ q := by
    rw [zpow_add₀ two_ne_zero]
    norm_cast
  have hlow := h.low
  rw [hsplit] at hv
  nlinarith

theorem RoundsTo.half_le {v : ℚ} (h : RoundsTo (2 ^ 52) q v) : 2 ^ (51 + q) ≤ v := by
  have hpos : (0 : ℚ) < 2 ^ q := by positivity
  have hsplit : (2 : ℚ) ^ (51 + q) = 2 ^ 51 * 2 ^ q := by
    rw [zpow_add₀ two_ne_zero]
    norm_cast
  have hlow := h.low
  push_cast at hlow
  rw [hsplit]
  nlinarith

/-- The exponent that rounding leads to is that of the number, or the one below it if the value is
below a power of two. -/
theorem exponent_of_roundsTo (hw : Locates m a w) (hdigits : 52 ≤ m.log2 ∨ e ≤ -1074)
    (hn : IsCanonical n q) (hv : RoundsTo n q (w * 2 ^ e)) :
    e + excess m e = q ∨
      e + excess m e = q - 1 ∧ n = 2 ^ 52 ∧ -1074 < q ∧ w * 2 ^ e < 2 ^ (52 + q) := by
  have hleast := hn.least
  have hlog {k : Int} (hk : w * 2 ^ e < 2 ^ k) (hsmall : -1074 < k) : (m.log2 : Int) + e < k := by
    by_cases hm : m = 0
    · rw [hm, Nat.log2_zero] at hdigits ⊢
      omega
    · exact hw.log2_lt hm hk
  have hupper := hlog (hv.lt_two_zpow hn) (by omega)
  rw [add_excess hdigits]
  by_cases hq : q = -1074
  · exact .inl (by omega)
  by_cases hlarge : (2 : ℚ) ^ (52 + q) ≤ w * 2 ^ e
  · have hlower := hw.le_log2 hlarge
    exact .inl (by omega)
  · rw [not_le] at hlarge
    obtain rfl := hv.eq_of_lt (hn.full.resolve_right hq) hlarge
    have hlower := hw.le_log2 hv.half_le
    have hupper' := hlog hlarge (by omega)
    exact .inr ⟨by omega, rfl, by omega, hlarge⟩

/-- Rounding a value in the interval of a number gives the number. -/
theorem roundWithAccuracy_of_roundsTo (s : Sign) (hw : Locates m a w)
    (hdigits : 52 ≤ m.log2 ∨ e ≤ -1074) (hn : IsCanonical n q) (hv : RoundsTo n q (w * 2 ^ e)) :
    roundWithAccuracy format s m e a = .finite s n q hn.pos := by
  have hpos : (0 : ℚ) < 2 ^ q := by positivity
  rw [roundWithAccuracy_eq]
  obtain hexponent | ⟨hexponent, rfl, hq, hbelow⟩ := exponent_of_roundsTo hw hdigits hn hv
  · have hrounded : rounded m e a = n := by
      refine hw.rounded_eq ?_ ?_ fun hodd => ?_ <;> rw [div_two_pow_excess, hexponent]
      · exact (le_div_iff₀ hpos).2 hv.low
      · exact (div_le_iff₀ hpos).2 hv.high
      · exact ⟨(lt_div_iff₀ hpos).2 (hv.odd hodd).1, (div_lt_iff₀ hpos).2 (hv.odd hodd).2⟩
    have := hn.pos
    simp only [hrounded, hexponent, if_pos hn.lt]
    rw [dif_neg (by omega)]
  · -- Just below a power of two one more digit is kept, and rounding up carries into the exponent.
    have hnarrow := hv.narrow rfl hq
    have hhalf : (2 : ℚ) ^ q = 2 * 2 ^ (q - 1) := by
      rw [zpow_sub_one₀ two_ne_zero]
      ring
    have hpos' : (0 : ℚ) < 2 ^ (q - 1) := by positivity
    have hrounded : rounded m e a = 2 ^ 53 := by
      refine hw.rounded_eq ?_ ?_ fun hodd => ?_
      · rw [div_two_pow_excess, hexponent, le_div_iff₀ hpos']
        rw [hhalf] at hnarrow
        push_cast at hnarrow ⊢
        linarith
      · rw [div_two_pow_excess, hexponent, div_le_iff₀ hpos']
        rw [zpow_add₀ two_ne_zero, hhalf] at hbelow
        norm_num at hbelow ⊢
        linarith
      · omega
    rw [dif_neg (by omega), if_neg (by omega)]
    congr 1
    omega

end

end RuleGraph.Number

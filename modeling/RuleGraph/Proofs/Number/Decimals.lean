import Mathlib
import RuleGraph.Number.Reading
import RuleGraph.Proofs.Number.Nearest
/-!
# Decimals near a number

A decimal is read as the number whose interval it lies in. Its digits and its power of ten are
multiplied or divided exactly, whether they are numbers themselves or not, and the result is rounded
once.
-/
namespace RuleGraph.Number
open Float.Model UnpackedFloat

section
variable {m₁ m₂ n : Nat} {e₁ e₂ q : Int} (h₁ : 0 < m₁) (h₂ : 0 < m₂)

theorem mul_of_roundsTo (hdigits : 2 ^ 52 ≤ m₁ * m₂) (hn : IsCanonical n q)
    (hv : RoundsTo n q (m₁ * 2 ^ e₁ * (m₂ * 2 ^ e₂))) :
    UnpackedFloat.mul format (.finite .positive m₁ e₁ h₁) (.finite .positive m₂ e₂ h₂) =
      .finite .positive n q hn.pos := by
  have hexact : Locates (m₁ * m₂) .exact (m₁ * m₂ : ℚ) := (Nat.cast_mul m₁ m₂).symm
  refine roundWithAccuracy_of_roundsTo .positive hexact
    (.inl ((Nat.le_log2 (by omega)).2 hdigits)) hn ?_
  rwa [zpow_add₀ two_ne_zero, mul_mul_mul_comm]

theorem div_of_roundsTo (hn : IsCanonical n q)
    (hv : RoundsTo n q (m₁ * 2 ^ e₁ / (m₂ * 2 ^ e₂))) :
    UnpackedFloat.div format (.finite .positive m₁ e₁ h₁) (.finite .positive m₂ e₂ h₂) =
      .finite .positive n q hn.pos := by
  change roundWithAccuracy format .positive (divCore format m₁ e₁ m₂ e₂).1
    (divCore format m₁ e₁ m₂ e₂).2.1 (divCore format m₁ e₁ m₂ e₂).2.2 = _
  simp only [divCore, targetExponent_eq, totalExponent, Nat.shiftLeft_eq]
  generalize ht : min (e₁ - e₂)
    (max ((m₁.log2 : Int) + 1 + e₁ - ((m₂.log2 : Int) + 1 + e₂) - 53) (-1074)) = t
  generalize hk : (e₁ - e₂ - t).toNat = k
  refine roundWithAccuracy_of_roundsTo .positive (locates_div (m₁ * 2 ^ k) h₂) ?_ hn ?_
  · by_cases ht' : t ≤ -1074
    · exact .inr ht'
    · -- The dividend has at least 53 digits more than the divisor.
      have hshift : m₂.log2 + 53 ≤ m₁.log2 + k := by omega
      have hquotient : 2 ^ 52 ≤ m₁ * 2 ^ k / m₂ := by
        rw [Nat.le_div_iff_mul_le h₂]
        calc 2 ^ 52 * m₂ ≤ 2 ^ 52 * 2 ^ (m₂.log2 + 1) :=
              Nat.mul_le_mul_left _ Nat.lt_log2_self.le
          _ = 2 ^ (m₂.log2 + 53) := by rw [← Nat.pow_add]; congr 1; omega
          _ ≤ 2 ^ (m₁.log2 + k) := Nat.pow_le_pow_right (by decide) hshift
          _ ≤ m₁ * 2 ^ k := by
            rw [Nat.pow_add]
            exact Nat.mul_le_mul_right _ (Nat.log2_self_le h₁.ne')
      exact .inl ((Nat.le_log2 (by omega)).2 hquotient)
  · have hvalue : ((m₁ * 2 ^ k : Nat) : ℚ) / m₂ * 2 ^ t = m₁ * 2 ^ e₁ / (m₂ * 2 ^ e₂) := by
      have hexponent : e₁ = k + t + e₂ := by omega
      have hm₂ : (m₂ : ℚ) ≠ 0 := by exact_mod_cast h₂.ne'
      rw [hexponent, zpow_add₀ two_ne_zero, zpow_add₀ two_ne_zero, zpow_natCast]
      push_cast
      field_simp
    rwa [hvalue]

end

theorem zpow_eq_div {b : ℚ} (hb : b ≠ 0) (e : Int) : b ^ e = b ^ e.toNat / b ^ (-e).toNat := by
  conv_lhs => rw [← Int.toNat_sub_toNat_neg e]
  rw [zpow_natCast_sub_natCast₀ hb]

def isNat (n : Nat) : UnpackedFloat → Bool
  | .finite .positive m e _ => m * 2 ^ e.toNat == n * 2 ^ (-e).toNat
  | _ => false

theorem exists_of_isNat {n : Nat} {u : UnpackedFloat} (h : isNat n u) :
    ∃ m e hm, u = .finite .positive m e hm ∧ (m : ℚ) * 2 ^ e = n := by
  unfold isNat at h
  split at h
  · next m e hm =>
    have h : (m : ℚ) * 2 ^ e.toNat = n * 2 ^ (-e).toNat := by exact_mod_cast beq_iff_eq.1 h
    refine ⟨m, e, hm, rfl, ?_⟩
    rw [zpow_eq_div two_ne_zero, ← mul_div_assoc, h, mul_div_cancel_right₀]
    positivity
  · cases h

theorem isNat_power : ∀ e : Fin Float.exactlyRepresentablePowersOfTen.size,
    isNat (10 ^ e.val) Float.exactlyRepresentablePowersOfTen[e].toModel.unpack := by
  decide +kernel

theorem exists_unpack_power {e : Nat} (he : e < Float.exactlyRepresentablePowersOfTen.size) :
    ∃ m f hm, Float.exactlyRepresentablePowersOfTen[e].toModel.unpack =
      .finite .positive m f hm ∧ (m : ℚ) * 2 ^ f = 10 ^ e := by
  obtain ⟨m, f, hm, hunpack, hvalue⟩ := exists_of_isNat (isNat_power ⟨e, he⟩)
  exact ⟨m, f, hm, hunpack, by rw [hvalue]; push_cast; rfl⟩

section
variable {m n : Nat} {e q : Int}

theorem isCanonical_of_unpack {x : Float} {s : Sign} {hm : 0 < n}
    (hx : x.toModel.unpack = .finite s n q hm) : IsCanonical n q ∧ q ≤ 971 := by
  obtain ⟨hlt, hleast, hgreatest, hfull⟩ := unpack_eq_finite hx
  exact ⟨⟨hm, hlt, hleast, hfull⟩, hgreatest⟩

theorem RoundsTo.lt_greatest {v : ℚ} (hn : IsCanonical n q) (hq : q ≤ 971) (h : RoundsTo n q v) :
    v < 2 ^ (1024 : Int) :=
  (h.lt_two_zpow hn).trans_le (zpow_le_zpow_right₀ one_le_two (by omega))

theorem RoundsTo.least_le {v : ℚ} (hn : IsCanonical n q) (h : RoundsTo n q v) :
    2 ^ (-1075 : Int) ≤ v := by
  have hone : (1 : ℚ) ≤ n := by exact_mod_cast hn.pos
  have hleast : (2 : ℚ) ^ (-1074 : Int) ≤ 2 ^ q := zpow_le_zpow_right₀ one_le_two hn.least
  have hpos : (0 : ℚ) < 2 ^ q := by positivity
  have hhalf : (2 : ℚ) ^ (-1074 : Int) = 2 * 2 ^ (-1075 : Int) := by
    rw [← zpow_one_add₀ two_ne_zero]
    rfl
  have hlow := h.low
  nlinarith

end

/-- The decimal logarithm of a power of two, cut to an integer, is found by a multiplication as long
as the power is not too large. -/
theorem decimal_log_bounds {k : Nat} (hk : k < 100000) :
    10 ^ (k * 30103 / 100000) ≤ 2 ^ (k + 1) ∧ 2 ^ k ≤ 10 ^ (k * 30103 / 100000 + 1) := by
  have hbelow : 2 ^ 100000 ≤ 10 ^ 30103 := by decide +kernel
  have habove : 10 ^ 30103 ≤ 2 ^ 100001 := by decide +kernel
  have hne : 100000 ≠ 0 := by decide
  rw [← Nat.pow_le_pow_iff_left hne, ← Nat.pow_le_pow_iff_left (a := 2 ^ k) hne]
  simp only [← Nat.pow_mul]
  generalize ht : k * 30103 / 100000 = t
  constructor
  · calc 10 ^ (t * 100000) ≤ 10 ^ (30103 * k) := Nat.pow_le_pow_right (by decide) (by omega)
      _ ≤ 2 ^ (100001 * k) := by
        rw [pow_mul, pow_mul]
        exact pow_le_pow_left' habove k
      _ ≤ 2 ^ ((k + 1) * 100000) := Nat.pow_le_pow_right (by decide) (by omega)
  · calc 2 ^ (k * 100000) ≤ 10 ^ (30103 * k) := by
          rw [Nat.mul_comm, pow_mul, pow_mul]
          exact pow_le_pow_left' hbelow k
      _ ≤ 10 ^ ((t + 1) * 100000) := Nat.pow_le_pow_right (by decide) (by omega)

section
variable {m n : Nat} {e q : Int}

theorem size_bounds (hlow : 2 ^ (-1075 : Int) ≤ (m : ℚ) * 10 ^ e)
    (hhigh : (m : ℚ) * 10 ^ e < 2 ^ (1024 : Int)) (hlog : m.log2 < 100000) :
    -330 ≤ (m.log2 : Int) * 30103 / 100000 + e ∧ (m.log2 : Int) * 30103 / 100000 + e ≤ 310 := by
  have hpos : (0 : ℚ) < 10 ^ e := by positivity
  have hm : m ≠ 0 := by
    rintro rfl
    rw [Nat.cast_zero, zero_mul] at hlow
    exact absurd hlow (not_le.2 (by positivity))
  have hfloor : (2 : ℚ) ^ m.log2 ≤ m := by exact_mod_cast Nat.log2_self_le hm
  have hceil : (m : ℚ) < 2 ^ (m.log2 + 1) := by exact_mod_cast Nat.lt_log2_self (n := m)
  obtain ⟨hten, htwo⟩ := decimal_log_bounds hlog
  have hcast : (m.log2 : Int) * 30103 / 100000 = (m.log2 * 30103 / 100000 : Nat) := by omega
  rw [hcast]
  generalize m.log2 * 30103 / 100000 = t at *
  have hten : (10 : ℚ) ^ t ≤ 2 ^ (m.log2 + 1) := by exact_mod_cast hten
  have htwo : (2 : ℚ) ^ m.log2 ≤ 10 ^ (t + 1) := by exact_mod_cast htwo
  have hsplit : (10 : ℚ) ^ (t + e) = 10 ^ t * 10 ^ e := by
    rw [zpow_add₀ (by norm_num), zpow_natCast]
  rw [pow_succ] at hten hceil htwo
  constructor
  · have hleast : (10 : ℚ) ^ (-330 : Int) * 20 < 2 ^ (-1075 : Int) := by
      rw [zpow_neg, zpow_neg, inv_mul_lt_iff₀ (by positivity), ← div_eq_mul_inv,
        lt_div_iff₀ (by positivity)]
      have : 20 * 2 ^ 1075 < 10 ^ 330 := by decide +kernel
      exact_mod_cast this
    have hvalue : (m : ℚ) * 10 ^ e < 20 * 10 ^ (t + e) := by
      rw [hsplit]
      nlinarith
    have hlt : (10 : ℚ) ^ (-330 : Int) < 10 ^ (t + e) := by linarith
    exact ((zpow_lt_zpow_iff_right₀ (by norm_num)).1 hlt).le
  · have hgreatest : (2 : ℚ) ^ (1024 : Int) * 2 < 10 ^ (310 : Int) := by
      have : 2 ^ 1024 * 2 < 10 ^ 310 := by decide +kernel
      exact_mod_cast this
    have hvalue : (10 : ℚ) ^ (t + e) ≤ m * 10 ^ e * 2 := by
      rw [hsplit]
      nlinarith
    have hlt : (10 : ℚ) ^ (t + e) < 10 ^ (310 : Int) :=
      (hvalue.trans_lt (mul_lt_mul_of_pos_right hhigh two_pos)).trans hgreatest
    exact ((zpow_lt_zpow_iff_right₀ (by norm_num)).1 hlt).le

end

theorem eq_of_toModel_eq {x y : Float} {u : UnpackedFloat} (hx : x.toModel.unpack = u)
    (hy : y.toModel = Float.Model.pack u) : y = x := by
  rw [← hx, pack_unpack_model] at hy
  exact congrArg Float.ofModel hy

section
variable {m n : Nat} {e q : Int} {x : Float} {hn : 0 < n}

theorem ofScientific_of_small (hx : x.toModel.unpack = .finite .positive n q hn)
    (hv : RoundsTo n q (m * 10 ^ e)) (hsmall : m < 2 ^ 53 ∧ e.natAbs ≤ 22) :
    Float.ofScientific m (decide (e < 0)) e.natAbs = x := by
  obtain ⟨hcanonical, -⟩ := isCanonical_of_unpack hx
  have hm : m ≠ 0 := by
    rintro rfl
    simpa using hv.pos hn
  obtain ⟨hdigits, hunpack⟩ := unpack_toFloat hm hsmall.1
  have hsize : Float.exactlyRepresentablePowersOfTen.size = 23 := rfl
  obtain ⟨p, f, hp, hpower, hten⟩ := exists_unpack_power (by omega : e.natAbs < _)
  have hlog := log2_le_of_lt hm hsmall.1
  have hfilled := filled_mantissa hm hlog
  have hvalue : ((m * 2 ^ (52 - m.log2) : Nat) : ℚ) * 2 ^ ((m.log2 : Int) - 52) = m := by
    have hexponent : (m.log2 : Int) - 52 = -(52 - m.log2 : Nat) := by omega
    rw [hexponent, zpow_neg, zpow_natCast]
    push_cast
    exact mul_inv_cancel_right₀ (by positivity) _
  rw [Float.ofScientific, dif_pos hsmall]
  by_cases he : e < 0
  · rw [if_pos (decide_eq_true he)]
    refine eq_of_toModel_eq hx ?_
    have hquotient : (m : ℚ) * 10 ^ e = m / 10 ^ e.natAbs := by
      have habs : e = -(e.natAbs : Int) := by omega
      conv_lhs => rw [habs, zpow_neg, zpow_natCast]
      rfl
    rw [hquotient, ← hvalue, ← hten] at hv
    have hdiv := div_of_roundsTo hdigits hp hcanonical hv
    rw [← hunpack, ← hpower] at hdiv
    exact congrArg Float.Model.pack hdiv
  · rw [if_neg (by simpa using he)]
    refine eq_of_toModel_eq hx ?_
    have hproduct : (m : ℚ) * 10 ^ e = m * 10 ^ e.natAbs := by
      have habs : e = (e.natAbs : Int) := by omega
      conv_lhs => rw [habs, zpow_natCast]
    rw [hproduct, ← hvalue, ← hten] at hv
    have hmul := mul_of_roundsTo hdigits hp
      (hfilled.1.trans (Nat.le_mul_of_pos_right _ hp)) hcanonical hv
    rw [← hunpack, ← hpower] at hmul
    exact congrArg Float.Model.pack hmul

theorem unpackedOfScientific_of_roundsTo (hcanonical : IsCanonical n q) (hq : q ≤ 971)
    (hv : RoundsTo n q (m * 10 ^ e)) (hlog : m.log2 < 100000) :
    UnpackedFloat.ofScientific format m e = .finite .positive n q hcanonical.pos := by
  have hexponents : (2 : Int) ^ format.exponentBits = 2048 := rfl
  have hm : m ≠ 0 := by
    rintro rfl
    simpa using hv.pos hcanonical.pos
  have hsize := size_bounds (hv.least_le hcanonical) (hv.lt_greatest hcanonical hq) hlog
  by_cases he : 0 ≤ e
  · obtain ⟨k, rfl⟩ := Int.eq_ofNat_of_zero_le he
    have hexact : Locates (m * 2 ^ 53 * 10 ^ k) .exact (m * 2 ^ 53 * 10 ^ k : ℚ) := by
      change (_ : ℚ) = (m * 2 ^ 53 * 10 ^ k : Nat)
      push_cast
      rfl
    have hdigits : 52 ≤ (m * 2 ^ 53 * 10 ^ k).log2 := by
      have hshifted : 1 * 2 ^ 53 * 1 ≤ m * 2 ^ 53 * 10 ^ k :=
        Nat.mul_le_mul (Nat.mul_le_mul_right _ (Nat.pos_of_ne_zero hm)) (Nat.pow_pos (by decide))
      exact (Nat.le_log2 (by omega)).2 (by omega)
    have hvalue : (m : ℚ) * 10 ^ (k : Int) = m * 2 ^ 53 * 10 ^ k * 2 ^ (-53 : Int) := by
      have hone : (2 : ℚ) ^ 53 * 2 ^ (-53 : Int) = 1 := by norm_num
      rw [zpow_natCast, mul_right_comm (m : ℚ), mul_assoc _ ((2 : ℚ) ^ 53), hone, mul_one]
    rw [unpackedOfScientific_natCast hm (by omega)]
    rw [hvalue] at hv
    exact roundWithAccuracy_of_roundsTo .positive hexact (.inl hdigits) hcanonical hv
  · have hvalue : (m : ℚ) * 10 ^ e =
        m * 2 ^ (0 : Int) / ((10 ^ (-e).toNat : Nat) * 2 ^ (0 : Int)) := by
      have habs : e = -((-e).toNat : Int) := by omega
      conv_lhs => rw [habs, zpow_neg, zpow_natCast]
      push_cast
      simp [div_eq_mul_inv]
    rw [UnpackedFloat.ofScientific, dif_neg hm, if_neg (by omega), if_neg (by omega), if_neg he]
    rw [hvalue] at hv
    exact div_of_roundsTo _ _ hcanonical hv

/-- A decimal in the interval of a number is read as the number. -/
theorem ofDecimal_of_roundsTo (hx : x.toModel.unpack = .finite .positive n q hn)
    (hv : RoundsTo n q (m * 10 ^ e)) (hlog : m.log2 < 100000) : ofDecimal m e = x := by
  obtain ⟨hcanonical, hq⟩ := isCanonical_of_unpack hx
  have hsize := size_bounds (hv.least_le hcanonical) (hv.lt_greatest hcanonical hq) hlog
  have hm : m ≠ 0 := by
    rintro rfl
    simpa using hv.pos hn
  rw [ofDecimal, if_neg (by omega), if_neg (by omega)]
  by_cases hsmall : m < 2 ^ 53 ∧ e.natAbs ≤ 22
  · exact ofScientific_of_small hx hv hsmall
  · have hexponent :
        (if decide (e < 0) then Int.negOfNat e.natAbs else Int.ofNat e.natAbs) = e := by
      by_cases he : e < 0
      · rw [if_pos (decide_eq_true he), Int.negOfNat_eq, Int.ofNat_eq_natCast]
        omega
      · rw [if_neg (by simpa using he)]
        exact Int.natAbs_of_nonneg (by omega)
    rw [Float.ofScientific, dif_neg hsmall]
    refine eq_of_toModel_eq hx ?_
    simp only [hexponent]
    exact congrArg Float.Model.pack (unpackedOfScientific_of_roundsTo hcanonical hq hv hlog)

end

end RuleGraph.Number

import RuleGraph.Proofs.Number.Bits
/-!
# Which results stay in range

A result is rounded to 53 binary digits and overflows if its exponent is then too large. Quotients
by powers of ten that are no fractions never do.
-/
namespace RuleGraph.Number
open Float.Model UnpackedFloat

theorem targetExponent_eq (t : Int) : format.targetExponent t = max (t - 53) (-1074) :=
  rfl

theorem mantissa_shiftRight (em : ExtendedMantissa) (k : Nat) :
    (em >>> k).mantissa = em.mantissa / 2 ^ k := by
  induction k with
  | zero => exact (Nat.div_one _).symm
  | succ k ih =>
    change (em >>> k).mantissa / 2 = _
    rw [ih, Nat.div_div_eq_div_mul, ← Nat.pow_succ]

theorem mantissa_ofMantissaAndAccuracy (m : Nat) (a : Accuracy) :
    (ExtendedMantissa.ofMantissaAndAccuracy m a).mantissa = m := by
  cases a with
  | exact => rfl
  | inexact half => cases half <;> rfl

theorem roundedMantissa_le (em : ExtendedMantissa) : em.roundedMantissa ≤ em.mantissa + 1 := by
  obtain ⟨m, half, more⟩ := em
  cases half <;> cases more <;>
    simp only [ExtendedMantissa.roundedMantissa, ExtendedMantissa.accuracy,
      Accuracy.roundToNearestEven] <;> omega

theorem le_roundedMantissa (em : ExtendedMantissa) : em.mantissa ≤ em.roundedMantissa := by
  obtain ⟨m, half, more⟩ := em
  cases half <;> cases more <;>
    simp only [ExtendedMantissa.roundedMantissa, ExtendedMantissa.accuracy,
      Accuracy.roundToNearestEven] <;> omega

/-- How many binary digits of `m * 2 ^ e` are rounded off. -/
def excess (m : Nat) (e : Int) : Nat :=
  (format.targetExponent (totalExponent m e) - e).toNat

/-- The mantissa that is left then; it may have one digit too many. -/
def rounded (m : Nat) (e : Int) (a : Accuracy) : Nat :=
  (ExtendedMantissa.ofMantissaAndAccuracy m a >>> excess m e).roundedMantissa

theorem excess_eq (m : Nat) (e : Int) :
    excess m e = (max ((m.log2 : Int) + e - 52) (-1074) - e).toNat := by
  rw [excess, targetExponent_eq, totalExponent]
  congr 2
  omega

theorem div_two_pow_excess_lt (m : Nat) (e : Int) : m / 2 ^ excess m e < 2 ^ 53 := by
  have hlog : m.log2 ≤ 52 + excess m e := by
    rw [excess_eq]
    omega
  rw [Nat.div_lt_iff_lt_mul (Nat.two_pow_pos _), ← Nat.pow_add]
  exact Nat.lt_of_lt_of_le Nat.lt_log2_self (Nat.pow_le_pow_right (by decide) (by omega))

theorem rounded_le_div (m : Nat) (e : Int) (a : Accuracy) :
    rounded m e a ≤ m / 2 ^ excess m e + 1 := by
  have h := roundedMantissa_le (ExtendedMantissa.ofMantissaAndAccuracy m a >>> excess m e)
  rwa [mantissa_shiftRight, mantissa_ofMantissaAndAccuracy] at h

theorem div_le_rounded (m : Nat) (e : Int) (a : Accuracy) :
    m / 2 ^ excess m e ≤ rounded m e a := by
  have h := le_roundedMantissa (ExtendedMantissa.ofMantissaAndAccuracy m a >>> excess m e)
  rwa [mantissa_shiftRight, mantissa_ofMantissaAndAccuracy] at h

theorem rounded_of_even {m : Nat} {e : Int} (hexcess : excess m e = 1) (hm : m % 2 = 0)
    (a : Accuracy) : rounded m e a = m / 2 := by
  rw [rounded, hexcess]
  change (ExtendedMantissa.ofMantissaAndAccuracy m a).shiftRightOne.roundedMantissa = _
  cases a with
  | exact => simp [ExtendedMantissa.ofMantissaAndAccuracy, ExtendedMantissa.shiftRightOne,
      ExtendedMantissa.roundedMantissa, ExtendedMantissa.accuracy, Accuracy.roundToNearestEven, hm]
  | inexact half =>
    cases half <;> simp [ExtendedMantissa.ofMantissaAndAccuracy, ExtendedMantissa.shiftRightOne,
      ExtendedMantissa.roundedMantissa, ExtendedMantissa.accuracy, Accuracy.roundToNearestEven, hm]

theorem rounded_le (m : Nat) (e : Int) (a : Accuracy) : rounded m e a ≤ 2 ^ 53 := by
  have h := rounded_le_div m e a
  have h' := div_two_pow_excess_lt m e
  omega

/-- The result of rounding. The digit too many goes into the exponent. -/
theorem roundWithAccuracy_eq (s : Sign) (m : Nat) (e : Int) (a : Accuracy) :
    roundWithAccuracy format s m e a =
      if h : rounded m e a = 0 then .zero s
      else if rounded m e a < 2 ^ 53 then
        .finite s (rounded m e a) (e + excess m e) (Nat.pos_of_ne_zero h)
      else .finite s (2 ^ 52) (e + excess m e + 1) (by decide) := by
  have hexponent : -1074 ≤ e + excess m e := by
    rw [excess_eq]
    omega
  have hle := rounded_le m e a
  have hsecond : excess (rounded m e a) (e + excess m e) =
      if rounded m e a < 2 ^ 53 then 0 else 1 := by
    rw [excess_eq]
    split
    case isTrue hlt =>
      have hlog : (rounded m e a).log2 ≤ 52 := by
        by_cases h : rounded m e a = 0
        · simp [h]
        · have := (Nat.log2_lt h).2 hlt
          omega
      omega
    case isFalse hge =>
      have hlog : (rounded m e a).log2 = 53 := by
        rw [Nat.le_antisymm hle (by omega), Nat.log2_two_pow]
      omega
  have hunfold : roundWithAccuracy format s m e a =
      if h : rounded m e a / 2 ^ excess (rounded m e a) (e + excess m e) = 0 then .zero s
      else .finite s (rounded m e a / 2 ^ excess (rounded m e a) (e + excess m e))
        (e + excess m e + excess (rounded m e a) (e + excess m e)) (Nat.pos_of_ne_zero h) := by
    simp only [roundWithAccuracy, shiftToTargetExponent, shiftToExponent, mantissa_shiftRight,
      mantissa_ofMantissaAndAccuracy, rounded, excess]
    rfl
  rw [hunfold]
  by_cases hlt : rounded m e a < 2 ^ 53
  · rw [if_pos hlt] at hsecond
    simp only [hsecond, if_pos hlt, Nat.pow_zero, Nat.div_one, Int.natCast_zero, Int.add_zero]
  · rw [if_neg hlt] at hsecond
    have heq : rounded m e a = 2 ^ 53 := by omega
    rw [heq] at hsecond
    simp only [heq, hsecond]
    rfl

theorem isFinite_unpack {b : BitVec format.numBits} (h : unpackExponent b ≠ -1#_) :
    (unpack format b).isFinite := by
  rw [UnpackedFloat.unpack]
  simp only [if_neg h]
  split
  · split <;> rfl
  · rfl

theorem isFinite_unpack_pack (s : Sign) {m : Nat} {e : Int} (hm : 0 < m) (he : e ≤ 971) :
    (unpack format (pack format (.finite s m e hm))).isFinite := by
  have hbias : (format.exponentBias : Int) = 1023 := rfl
  have hfraction : (format.mantissaBitsWithoutImplicit : Int) = 52 := rfl
  have hexponents : 2 ^ format.exponentBits = 2 ^ 11 := rfl
  simp only [UnpackedFloat.pack, hbias, hfraction]
  rw [if_neg (by omega)]
  split
  · refine isFinite_unpack fun h => ?_
    rw [unpackExponent_packComponents] at h
    have hlast := congrArg BitVec.toNat h
    rw [BitVec.toNat_ofNat, Nat.mod_eq_of_lt (by omega)] at hlast
    have : (-(BitVec.ofNat format.exponentBits 1)).toNat = 2047 := rfl
    omega
  · refine isFinite_unpack ?_
    rw [unpackExponent_packComponents]
    decide

/-- A result is finite if it still fits after rounding. -/
theorem isFinite_roundWithAccuracy (s : Sign) {m : Nat} {e : Int} (a : Accuracy)
    (h : e + excess m e ≤ 970 ∨ e + excess m e ≤ 971 ∧ rounded m e a < 2 ^ 53) :
    (unpack format (pack format (roundWithAccuracy format s m e a))).isFinite := by
  rw [roundWithAccuracy_eq]
  split
  · cases s <;> rfl
  · split
    · exact isFinite_unpack_pack s _ (by omega)
    · exact isFinite_unpack_pack s _ (by omega)

theorem unpack_pack_normal (s : Sign) {m : Nat} {e : Int} (hm : 2 ^ 52 ≤ m) (hm' : m < 2 ^ 53)
    (he : -1074 ≤ e) (he' : e ≤ 971) (hpos : 0 < m) :
    unpack format (pack format (.finite s m e hpos)) = .finite s m e hpos := by
  have hbits : format.mantissaBits = 53 := rfl
  have hbias : (format.exponentBias : Int) = 1023 := rfl
  have hfraction : (format.mantissaBitsWithoutImplicit : Int) = 52 := rfl
  have hexponents : 2 ^ format.exponentBits = 2 ^ 11 := rfl
  have hlog : m.log2 = 52 := (Nat.log2_eq_iff (by omega)).2 ⟨hm, hm'⟩
  have hexponent : (BitVec.ofNat format.exponentBits (e + 1023 + 52).toNat).toNat =
      (e + 1075).toNat := by
    rw [BitVec.toNat_ofNat, Nat.mod_eq_of_lt (by omega)]
    omega
  have hfirst : BitVec.ofNat format.exponentBits (e + 1023 + 52).toNat ≠ 0#_ := fun h => by
    rw [h] at hexponent
    have : (BitVec.ofNat format.exponentBits 0).toNat = 0 := rfl
    omega
  have hlast : BitVec.ofNat format.exponentBits (e + 1023 + 52).toNat ≠ -1#_ := fun h => by
    rw [h] at hexponent
    have : (-(BitVec.ofNat format.exponentBits 1)).toNat = 2047 := rfl
    omega
  have hmantissa : (1#1 ++ BitVec.ofNat 52 m).toNat = m := by
    rw [toNat_append_implicit, BitVec.toNat_ofNat]
    omega
  simp only [UnpackedFloat.pack, hbias, hfraction]
  rw [if_neg (by omega), if_pos (by omega)]
  simp only [UnpackedFloat.unpack, unpackExponent_packComponents, unpackMantissa_packComponents,
    unpackSign_packComponents, Sign.ofBitVec_toBitVec, if_neg hfirst, if_neg hlast, hexponent,
    UnpackedFloat.finite.injEq, true_and]
  exact ⟨hmantissa, by omega⟩

theorem unpack_eq_finite {b : BitVec format.numBits} {s : Sign} {m : Nat} {e : Int} {hm : 0 < m}
    (h : unpack format b = .finite s m e hm) :
    m < 2 ^ 53 ∧ -1074 ≤ e ∧ e ≤ 971 ∧ (2 ^ 52 ≤ m ∨ e = -1074) := by
  have hbias : (format.exponentBias : Int) = 1023 := rfl
  have hfraction : (format.mantissaBitsWithoutImplicit : Int) = 52 := rfl
  have hdigits : (unpackMantissa b).toNat < 2 ^ 52 := (unpackMantissa b).isLt
  have hexponent : (unpackExponent b).toNat < 2 ^ 11 := (unpackExponent b).isLt
  rw [UnpackedFloat.unpack] at h
  split at h
  case isTrue => split at h <;> cases h
  case isFalse hlast =>
    split at h
    case isTrue hfirst =>
      split at h
      case isTrue => cases h
      case isFalse =>
        have hzero : (unpackExponent b).toNat = 0 := by rw [hfirst]; rfl
        cases h
        omega
    case isFalse hfirst =>
      have hfirst : (unpackExponent b).toNat ≠ 0 := fun h =>
        hfirst (BitVec.eq_of_toNat_eq (by simpa using h))
      have hlast : (unpackExponent b).toNat ≠ 2047 := fun h =>
        hlast (BitVec.eq_of_toNat_eq (by simpa using h))
      have hmantissa := toNat_append_implicit (unpackMantissa b)
      cases h
      omega

/-- A number that is not less than one; it may be infinite. -/
def AtLeastOne (u : UnpackedFloat) : Prop :=
  u = .infinity .positive ∨ ∃ m e hm, u = .finite .positive m e hm ∧
    2 ^ 52 ≤ m ∧ m < 2 ^ 53 ∧ -52 ≤ e ∧ e ≤ 971

theorem isFinite_unpack_pack_zero (s : Sign) :
    (unpack format (pack format (.zero s))).isFinite := by
  cases s <;> rfl

theorem unpack_pack_infinity (s : Sign) :
    unpack format (pack format (.infinity s)) = .infinity s := by
  cases s <;> rfl

theorem unpack_pack_overflow (s : Sign) {m : Nat} {e : Int} (he : 971 < e) (hpos : 0 < m) :
    unpack format (pack format (.finite s m e hpos)) = .infinity s := by
  have hbias : (format.exponentBias : Int) = 1023 := rfl
  have hfraction : (format.mantissaBitsWithoutImplicit : Int) = 52 := rfl
  have hexponents : 2 ^ format.exponentBits = 2 ^ 11 := rfl
  simp only [UnpackedFloat.pack, hbias, hfraction]
  rw [if_pos (by omega)]
  exact unpack_pack_infinity s

theorem atLeastOne_unpack_pack {m : Nat} {e : Int} (hm : 2 ^ 52 ≤ m) (hm' : m < 2 ^ 53)
    (he : -52 ≤ e) (hpos : 0 < m) :
    AtLeastOne (unpack format (pack format (.finite .positive m e hpos))) := by
  by_cases he' : e ≤ 971
  · exact .inr ⟨m, e, hpos, unpack_pack_normal _ hm hm' (by omega) he' hpos, hm, hm', he, he'⟩
  · exact .inl (unpack_pack_overflow _ (by omega) hpos)

/-- If there are 53 digits at least, the 53 that are left are not less than one, either. -/
theorem atLeastOne_roundWithAccuracy {m : Nat} {e : Int} (hm : 52 ≤ m.log2)
    (he : 0 ≤ (m.log2 : Int) + e) :
    AtLeastOne (unpack format (pack format (roundWithAccuracy format .positive m e .exact))) := by
  have hm0 : m ≠ 0 := by
    rintro rfl
    rw [Nat.log2_zero] at hm
    omega
  have hexcess : excess m e = m.log2 - 52 := by
    rw [excess_eq]
    omega
  have hkept : 2 ^ 52 ≤ m / 2 ^ excess m e := by
    rw [Nat.le_div_iff_mul_le (Nat.two_pow_pos _), ← Nat.pow_add, hexcess,
      Nat.add_sub_cancel' hm]
    exact Nat.log2_self_le hm0
  have hrounded := div_le_rounded m e .exact
  rw [roundWithAccuracy_eq, dif_neg (by omega)]
  split
  · exact atLeastOne_unpack_pack (by omega) ‹_› (by omega) _
  · exact atLeastOne_unpack_pack (by decide) (by decide) (by omega) _

theorem AtLeastOne.mul {x y : Float} (hx : AtLeastOne x.toModel.unpack)
    (hy : AtLeastOne y.toModel.unpack) : AtLeastOne (x * y).toModel.unpack := by
  have hmul : (x * y).toModel.unpack = unpack format (pack format
      (UnpackedFloat.mul format x.toModel.unpack y.toModel.unpack)) := rfl
  rw [hmul]
  obtain hx | ⟨m, e, hm, hx, hlo, hhi, he, he'⟩ := hx
  · refine .inl ?_
    obtain hy | ⟨n, f, hn, hy, -⟩ := hy <;> rw [hx, hy] <;> exact unpack_pack_infinity _
  obtain hy | ⟨n, f, hn, hy, hlo', hhi', hf, hf'⟩ := hy
  · refine .inl ?_
    rw [hx, hy]
    exact unpack_pack_infinity _
  have hround : UnpackedFloat.mul format x.toModel.unpack y.toModel.unpack =
      roundWithAccuracy format .positive (m * n) (e + f) .exact := by
    rw [hx, hy]
    rfl
  have hproduct : 2 ^ 52 * 2 ^ 52 ≤ m * n := Nat.mul_le_mul hlo hlo'
  have hlog : 104 ≤ (m * n).log2 := (Nat.le_log2 (by omega)).2 hproduct
  rw [hround]
  exact atLeastOne_roundWithAccuracy (by omega) (by omega)

theorem atLeastOne_mulPower {acc base : Float} (hacc : AtLeastOne acc.toModel.unpack)
    (hbase : AtLeastOne base.toModel.unpack) (k n : Nat) :
    AtLeastOne (mulPower k acc base n).toModel.unpack := by
  induction k generalizing acc base n with
  | zero => exact hacc
  | succ k ih =>
    rw [mulPower]
    refine ih ?_ (hbase.mul hbase) (n / 2)
    split
    · exact hacc.mul hbase
    · exact hacc

theorem unpack_one : (1 : Float).toModel.unpack = .finite .positive (2 ^ 52) (-52) (by decide) :=
  rfl

theorem unpack_ten :
    (10 : Float).toModel.unpack = .finite .positive (5 * 2 ^ 50) (-49) (by decide) :=
  rfl

theorem atLeastOne_powerOfTen {n : Int} (hn : 0 ≤ n) :
    AtLeastOne (powerOfTen n).toModel.unpack := by
  rw [powerOfTen, if_neg (by omega)]
  exact atLeastOne_mulPower (.inr ⟨_, _, _, unpack_one, by decide⟩)
    (.inr ⟨_, _, _, unpack_ten, by decide⟩) _ _

/-- The quotient of a finite number by one that is not less than one does not overflow. If it has
the greatest exponent, it is so near to the greatest number only if its last digit is zero. -/
theorem quotient_fits {m n : Nat} {e f : Int} (hm : m < 2 ^ 53) (he : e ≤ 971) (hn : 2 ^ 52 ≤ n)
    (hn' : n < 2 ^ 53) (hf : -52 ≤ f) :
    let (q, e', a) := divCore format m e n f
    e' + excess q e' ≤ 970 ∨ e' + excess q e' ≤ 971 ∧ rounded q e' a < 2 ^ 53 := by
  have hlog : n.log2 = 52 := (Nat.log2_eq_iff (by omega)).2 ⟨hn, hn'⟩
  have hlogm : m.log2 ≤ 52 := by
    by_cases h : m = 0
    · simp [h]
    · have := (Nat.log2_lt h).2 hm
      omega
  simp only [divCore, targetExponent_eq, totalExponent, hlog, Nat.shiftLeft_eq]
  generalize ht : min (e - f) (max ((m.log2 : Int) + 1 + e - (52 + 1 + f) - 53) (-1074)) = t
  generalize hk : (e - f - t).toNat = k
  generalize hq : m * 2 ^ k / n = q
  have hqn : q * n ≤ m * 2 ^ k := hq ▸ Nat.div_mul_le_self _ _
  have hlogq : q.log2 ≤ k := by
    have hlt : q < 2 ^ (k + 1) := by
      rw [← hq, Nat.div_lt_iff_lt_mul (by omega)]
      calc m * 2 ^ k < 2 ^ 53 * 2 ^ k := Nat.mul_lt_mul_of_pos_right hm (Nat.two_pow_pos k)
        _ = 2 ^ (k + 1) * 2 ^ 52 := by rw [← Nat.pow_add, ← Nat.pow_add]; congr 1; omega
        _ ≤ 2 ^ (k + 1) * n := Nat.mul_le_mul_left _ hn
    by_cases h : q = 0
    · simp [h]
    · have := (Nat.log2_lt h).2 hlt
      omega
  have hexcess := excess_eq q t
  by_cases hsmall : t + excess q t ≤ 970
  · exact .inl hsmall
  have hgreatest : q.log2 = k ∧ e = 971 ∧ f = -52 := by omega
  obtain ⟨hlogq, rfl, rfl⟩ := hgreatest
  have hnm : n ≤ m := by
    have hq0 : q ≠ 0 := fun h => by
      rw [h, Nat.log2_zero] at hlogq
      omega
    have hle : 2 ^ k * n ≤ 2 ^ k * m :=
      calc 2 ^ k * n ≤ q * n := Nat.mul_le_mul_right n (hlogq ▸ Nat.log2_self_le hq0)
        _ ≤ 2 ^ k * m := by rwa [Nat.mul_comm (2 ^ k)]
    exact Nat.le_of_mul_le_mul_left hle (Nat.two_pow_pos k)
  have hlogm : m.log2 = 52 := (Nat.log2_eq_iff (by omega)).2 ⟨by omega, hm⟩
  have hk53 : k = 53 := by omega
  have hone : excess q t = 1 := by omega
  refine .inr ⟨by omega, ?_⟩
  have hqmax : q ≤ 2 ^ 54 - 2 := by
    have hlow : q * 2 ^ 52 ≤ q * n := Nat.mul_le_mul_left q hn
    rw [hk53] at hqn
    omega
  by_cases heven : q % 2 = 0
  · rw [rounded_of_even hone heven]
    omega
  · have hle := rounded_le_div q t (accuracyOfFraction (m * 2 ^ k % n) n)
    rw [hone] at hle
    omega

/-- A quotient by a number that is not less than one is finite. -/
theorem isFinite_div {x y : Float} (hx : x.isFinite) (hy : AtLeastOne y.toModel.unpack) :
    (x / y).isFinite := by
  change (unpack format (pack format
    (UnpackedFloat.div format x.toModel.unpack y.toModel.unpack))).isFinite
  obtain ⟨s, hu⟩ | ⟨s, m, e, hm, hu⟩ := unpack_of_isFinite hx <;> rw [hu]
  · obtain hy | ⟨n, f, hn, hy, -⟩ := hy <;> rw [hy] <;> exact isFinite_unpack_pack_zero _
  · obtain hy | ⟨n, f, hn, hy, hlo, hhi, hf, hf'⟩ := hy
    · rw [hy]
      exact isFinite_unpack_pack_zero _
    · obtain ⟨hm, he, he', -⟩ := unpack_eq_finite hu
      rw [hy]
      exact isFinite_roundWithAccuracy _ _ (quotient_fits hm he' hlo hhi hf)

end RuleGraph.Number

import RuleGraph.Number.Notation
import RuleGraph.Proofs.Number.Integers
/-!
# Integers that numbers stand for

An integer below the safe bound is a number of its own, so that the integer a number is written as
is read as an equal number.
-/
namespace RuleGraph.Number
open Float.Model UnpackedFloat

theorem beq_self_of_isFinite {u : UnpackedFloat} (h : u.isFinite) : u.beq u := by
  cases u with
  | notANumber | infinity => cases h
  | zero s => cases s <;> rfl
  | finite s m e hm => cases s <;> simp [UnpackedFloat.beq, UnpackedFloat.compare]

theorem beq_of_unpack_eq {x y : Float} (h : x.toModel.unpack = y.toModel.unpack)
    (hy : y.isFinite) : x == y := by
  change x.toModel.unpack.beq y.toModel.unpack
  rw [h]
  exact beq_self_of_isFinite hy

theorem toNat_unpackMantissa (b : BitVec format.numBits) :
    (unpackMantissa b).toNat = b.toNat % 2 ^ 52 := by
  simp [unpackMantissa, BitVec.extractLsb]

theorem negative_iff (b : BitVec format.numBits) :
    2 ^ 63 ≤ b.toNat ↔ Sign.ofBitVec (unpackSign b) = .negative := by
  have hlt : b.toNat < 2 ^ 64 := b.isLt
  have hsign : (unpackSign b).toNat = b.toNat / 2 ^ 63 % 2 := by
    simp [unpackSign, BitVec.extractLsb, Nat.shiftRight_eq_div_pow]
  have hzero : unpackSign b = 0#1 ↔ (unpackSign b).toNat = 0 :=
    ⟨fun h => by rw [h]; rfl, fun h => BitVec.eq_of_toNat_eq h⟩
  unfold Sign.ofBitVec
  split
  · next h =>
    rw [hzero] at h
    exact iff_of_false (by omega) nofun
  · next h =>
    rw [hzero] at h
    exact iff_of_true (by omega) rfl

abbrev bits (x : Float) : BitVec format.numBits :=
  x.toModel.toBits.toBitVec

theorem exponentField_eq (x : Float) : exponentField x = (unpackExponent (bits x)).toNat :=
  (toNat_unpackExponent (bits x)).symm

theorem fractionField_eq (x : Float) : fractionField x = (unpackMantissa (bits x)).toNat :=
  (toNat_unpackMantissa (bits x)).symm

theorem signBit_iff (x : Float) :
    signBit x ↔ Sign.ofBitVec (unpackSign (bits x)) = .negative :=
  decide_eq_true_iff.trans (negative_iff (bits x))

theorem parts_of_finite {x : Float} {s : Sign} {m : Nat} {e : Int} {hm : 0 < m}
    (h : x.toModel.unpack = .finite s m e hm) :
    (parts x).mantissa = m ∧ (parts x).exponent = e ∧ ((parts x).negative ↔ s = .negative) := by
  have hbias : (format.exponentBias : Int) = 1023 := rfl
  have hfraction : (format.mantissaBitsWithoutImplicit : Int) = 52 := rfl
  have hsign := signBit_iff x
  have hexponent := exponentField_eq x
  change unpack format (bits x) = _ at h
  rw [UnpackedFloat.unpack] at h
  split at h
  · split at h <;> cases h
  · split at h
    · next hfirst =>
      have hzero : exponentField x = 0 := by
        rw [hexponent, hfirst]
        rfl
      split at h
      · cases h
      · cases h
        rw [parts, if_pos hzero]
        exact ⟨fractionField_eq x, by rw [hfirst]; rfl, hsign⟩
    · next hfirst =>
      have hne : exponentField x ≠ 0 := fun h0 =>
        hfirst (BitVec.eq_of_toNat_eq (by rw [← hexponent, h0]; rfl))
      have hmantissa := toNat_append_implicit (unpackMantissa (bits x))
      cases h
      rw [parts, if_neg hne]
      refine ⟨?_, ?_, hsign⟩
      · rw [fractionField_eq, hmantissa, Nat.pow_eq, Nat.add_comm]
      · simp only
        omega

theorem mantissa_of_zero {x : Float} {s : Sign} (h : x.toModel.unpack = .zero s) :
    (parts x).mantissa = 0 := by
  change unpack format (bits x) = _ at h
  rw [UnpackedFloat.unpack] at h
  split at h
  · split at h <;> cases h
  · split at h
    · next hfirst =>
      split at h
      · next hzero =>
        have hexponent : exponentField x = 0 := by
          rw [exponentField_eq, hfirst]
          rfl
        rw [parts, if_pos hexponent, fractionField_eq, hzero]
        rfl
      · cases h
    · cases h

theorem shiftRight_exact (m k : Nat) :
    (⟨m * 2 ^ k, false, false⟩ : ExtendedMantissa) >>> k = ⟨m, false, false⟩ := by
  induction k generalizing m with
  | zero => simp; rfl
  | succ k ih =>
    have heq : m * 2 ^ (k + 1) = m * 2 * 2 ^ k := by
      rw [Nat.pow_succ, Nat.mul_assoc, Nat.mul_comm 2]
    change ((⟨m * 2 ^ (k + 1), false, false⟩ : ExtendedMantissa) >>> k).shiftRightOne = _
    rw [heq, ih]
    simp [ExtendedMantissa.shiftRightOne]

theorem rounded_exact {m k : Nat} {e : Int} (h : excess (m * 2 ^ k) e = k) :
    rounded (m * 2 ^ k) e .exact = m := by
  rw [rounded, h]
  change ((⟨m * 2 ^ k, false, false⟩ : ExtendedMantissa) >>> k).roundedMantissa = m
  rw [shiftRight_exact]
  rfl

theorem unpack_mul_one {x : Float} {s : Sign} {m : Nat} {e : Int} {hm : 0 < m}
    (hx : x.toModel.unpack = .finite s m e hm) (hm' : 2 ^ 52 ≤ m) (he : -1074 ≤ e) (he' : e ≤ 971)
    {y : Float} (hy : y.toModel.unpack = .finite .positive (2 ^ 52) (-52) (by decide)) :
    (x * y).toModel.unpack = .finite s m e hm := by
  obtain ⟨hlt, -⟩ := unpack_eq_finite hx
  have hlog : (m * 2 ^ 52).log2 = 104 :=
    (Nat.log2_eq_iff (by omega)).2 ⟨by omega, by omega⟩
  have hexcess : excess (m * 2 ^ 52) (e + -52) = 52 := by
    rw [excess_eq, hlog]
    omega
  have hround : roundWithAccuracy format s (m * 2 ^ 52) (e + -52) .exact = .finite s m e hm := by
    rw [roundWithAccuracy_eq, rounded_exact hexcess, hexcess, dif_neg (by omega), if_pos hlt]
    congr 1
    omega
  have hmul : UnpackedFloat.mul format x.toModel.unpack y.toModel.unpack = .finite s m e hm := by
    rw [hx, hy]
    cases s with
    | positive => exact hround
    | negative => exact hround
  change unpack format (pack format
    (UnpackedFloat.mul format x.toModel.unpack y.toModel.unpack)) = _
  rw [hmul]
  exact unpack_pack_normal s hm' hlt he he' hm

theorem unpack_ofNat {n : Nat} (hn : n ≠ 0) (hn' : n < 2 ^ 53) :
    ∃ hm, (Float.ofNat n).toModel.unpack =
      .finite .positive (n * 2 ^ (52 - n.log2)) ((n.log2 : Int) - 52) hm := by
  obtain ⟨hm, hunpack⟩ := unpack_toFloat hn hn'
  have hlog := log2_le_of_lt hn hn'
  have hofNat : Float.ofNat n = n.toUInt64.toFloat * Float.exactlyRepresentablePowersOfTen[0] := by
    change Float.ofScientific n false 0 = _
    rw [Float.ofScientific, dif_pos ⟨hn', by decide⟩]
    rfl
  rw [hofNat]
  exact ⟨hm, unpack_mul_one hunpack (filled_mantissa hn hlog).1 (by omega) (by omega) rfl⟩

/-- A number without a fraction, other than zero and below the safe bound, has the mantissa and the
exponent of its integer part. -/
theorem unpack_of_isWhole {x : Float} {s : Sign} {m : Nat} {e : Int} {hm : 0 < m}
    (h : x.toModel.unpack = .finite s m e hm) (hwhole : (parts x).isWhole)
    (hbound : (parts x).whole < 2 ^ 53) :
    (parts x).whole ≠ 0 ∧ m = (parts x).whole * 2 ^ (52 - (parts x).whole.log2) ∧
      e = ((parts x).whole.log2 : Int) - 52 := by
  obtain ⟨hmantissa, hexponent, -⟩ := parts_of_finite h
  obtain ⟨hlt, hle, -, hnormal⟩ := unpack_eq_finite h
  simp only [Parts.isWhole, hmantissa, hexponent, Bool.or_eq_true, decide_eq_true_eq,
    beq_iff_eq] at hwhole
  simp only [Parts.whole, hmantissa, hexponent] at hbound ⊢
  by_cases he : 0 ≤ e
  · rw [if_pos he] at hbound ⊢
    -- An integer with more zeros would not be below the bound.
    have hzero : e = 0 := by
      by_contra hne
      have htwo : 2 ^ 1 ≤ 2 ^ e.toNat := Nat.pow_le_pow_right (by decide) (by omega)
      have hlarge : 2 ^ 52 * 2 ^ 1 ≤ m * 2 ^ e.toNat := Nat.mul_le_mul (by omega) htwo
      rw [Nat.pow_eq] at hbound
      omega
    subst hzero
    have hlog : m.log2 = 52 := (Nat.log2_eq_iff (by omega)).2 ⟨by omega, hlt⟩
    simp [hlog]
    omega
  · rw [if_neg he] at hbound ⊢
    generalize hk : (-e).toNat = k at hwhole hbound ⊢
    have hmod : m % 2 ^ k = 0 := hwhole.resolve_left he
    obtain ⟨n, rfl⟩ := Nat.dvd_of_mod_eq_zero hmod
    rw [Nat.pow_eq, Nat.mul_div_cancel_left n (Nat.two_pow_pos k)]
    have hn : n ≠ 0 := by
      rintro rfl
      exact Nat.lt_irrefl 0 hm
    have hpow : 2 ^ k ≤ 2 ^ k * n := Nat.le_mul_of_pos_right _ (Nat.pos_of_ne_zero hn)
    have hk52 : k < 53 := (Nat.pow_lt_pow_iff_right (by decide)).1 (Nat.lt_of_le_of_lt hpow hlt)
    have hsplit : 2 ^ 52 = 2 ^ k * 2 ^ (52 - k) := by
      rw [← Nat.pow_add]
      congr 1
      omega
    have hlog : n.log2 = 52 - k := by
      refine (Nat.log2_eq_iff hn).2 ⟨?_, ?_⟩
      · refine Nat.le_of_mul_le_mul_left ?_ (Nat.two_pow_pos k)
        omega
      · refine Nat.lt_of_mul_lt_mul_left (a := 2 ^ k) ?_
        rw [Nat.pow_succ, ← Nat.mul_assoc, ← hsplit]
        omega
    have hshift : 52 - (52 - k) = k := by omega
    rw [hlog, hshift]
    exact ⟨hn, Nat.mul_comm .., by omega⟩

theorem ofInt_neg {n : Nat} (hn : n ≠ 0) : Float.ofInt (-(n : Int)) = -Float.ofNat n := by
  cases n with
  | zero => exact absurd rfl hn
  | succ n => rfl

/-- The integer that a number is written as is read as an equal number. -/
theorem ofInt_toInt_beq {x : Float} (h : isIntegral x) : Float.ofInt (toInt x) == x := by
  obtain ⟨hinteger, hbound⟩ := Bool.and_eq_true_iff.1 h
  obtain ⟨hfinite, hwhole⟩ := Bool.and_eq_true_iff.1 hinteger
  have hbound : (parts x).whole < 2 ^ 53 := by
    have hbound : (toInt x).natAbs < 2 ^ 53 := of_decide_eq_true hbound
    rw [toInt] at hbound
    split at hbound <;> omega
  obtain ⟨s, hx⟩ | ⟨s, m, e, hm, hx⟩ := unpack_of_isFinite hfinite
  · have hzero : toInt x = 0 := by
      simp [toInt, Parts.whole, mantissa_of_zero hx]
    change (Float.ofInt (toInt x)).toModel.unpack.beq x.toModel.unpack
    rw [hzero, hx]
    cases s <;> rfl
  · obtain ⟨hn, hmantissa, hexponent⟩ := unpack_of_isWhole hx hwhole hbound
    obtain ⟨hm', hofNat⟩ := unpack_ofNat hn hbound
    obtain ⟨-, -, hnegative⟩ := parts_of_finite hx
    subst hmantissa hexponent
    refine beq_of_unpack_eq ?_ hfinite
    rw [toInt, hx]
    cases s with
    | positive =>
      rw [if_neg (fun h => Sign.noConfusion (hnegative.1 h))]
      exact hofNat
    | negative =>
      rw [if_pos (hnegative.2 rfl)]
      rw [ofInt_neg hn]
      change (-(Float.ofNat _).toModel).unpack = _
      rw [unpack_neg, hofNat]
      rfl

end RuleGraph.Number

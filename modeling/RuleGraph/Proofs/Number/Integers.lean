import RuleGraph.Proofs.Number.Rounding
/-!
# Integers in range

An integer of 64 bits is a finite number, and the integers next to a finite number are finite.
-/
namespace RuleGraph.Number
open Float.Model UnpackedFloat

theorem isFinite_mul {x y : Float} {s r : Sign} {m n : Nat} {e f : Int} {hm : 0 < m} {hn : 0 < n}
    (hx : x.toModel.unpack = .finite s m e hm) (hy : y.toModel.unpack = .finite r n f hn)
    (hm' : m < 2 ^ 53) (hn' : n < 2 ^ 53) (h : e + f ≤ 900) : (x * y).isFinite := by
  change (unpack format (pack format
    (UnpackedFloat.mul format x.toModel.unpack y.toModel.unpack))).isFinite
  rw [hx, hy]
  refine isFinite_roundWithAccuracy _ _ (.inl ?_)
  have hproduct : m * n < 2 ^ 53 * 2 ^ 53 := Nat.mul_lt_mul'' hm' hn'
  have hlog : (m * n).log2 < 106 := (Nat.log2_lt (Nat.ne_of_gt (Nat.mul_pos hm hn))).2 hproduct
  rw [excess_eq]
  omega

theorem roundWithAccuracy_exact (s : Sign) {m : Nat} {e : Int} (hm : 2 ^ 52 ≤ m)
    (hm' : m < 2 ^ 53) (he : -1074 ≤ e) (hpos : 0 < m) :
    roundWithAccuracy format s m e .exact = .finite s m e hpos := by
  have hlog : m.log2 = 52 := (Nat.log2_eq_iff (by omega)).2 ⟨hm, hm'⟩
  have hexcess : excess m e = 0 := by
    rw [excess_eq]
    omega
  have hrounded : rounded m e .exact = m := by
    rw [rounded, hexcess]
    rfl
  rw [roundWithAccuracy_eq, hrounded, hexcess, dif_neg (by omega), if_pos hm']
  simp

theorem filled_mantissa {n : Nat} (hn : n ≠ 0) (hlog : n.log2 ≤ 52) :
    2 ^ 52 ≤ n * 2 ^ (52 - n.log2) ∧ n * 2 ^ (52 - n.log2) < 2 ^ 53 := by
  constructor
  · calc 2 ^ 52 = 2 ^ n.log2 * 2 ^ (52 - n.log2) := by rw [← Nat.pow_add]; congr 1; omega
      _ ≤ n * 2 ^ (52 - n.log2) := Nat.mul_le_mul_right _ (Nat.log2_self_le hn)
  · calc n * 2 ^ (52 - n.log2) < 2 ^ (n.log2 + 1) * 2 ^ (52 - n.log2) :=
          Nat.mul_lt_mul_of_pos_right Nat.lt_log2_self (Nat.two_pow_pos _)
      _ = 2 ^ 53 := by rw [← Nat.pow_add]; congr 1; omega

theorem log2_le_of_lt {n : Nat} (hn : n ≠ 0) (hn' : n < 2 ^ 53) : n.log2 ≤ 52 := by
  have := (Nat.log2_lt hn).2 hn'
  omega

theorem unpack_toFloat {n : Nat} (hn : n ≠ 0) (hn' : n < 2 ^ 53) :
    ∃ hm, n.toUInt64.toFloat.toModel.unpack =
      .finite .positive (n * 2 ^ (52 - n.log2)) ((n.log2 : Int) - 52) hm := by
  have hlog := log2_le_of_lt hn hn'
  obtain ⟨hlow, hhigh⟩ := filled_mantissa hn hlog
  have hpos : 0 < n * 2 ^ (52 - n.log2) := by omega
  have htoNat : n.toUInt64.toNat = n := UInt64.toNat_ofNat_of_lt' (Nat.lt_trans hn' (by decide))
  have hround : UnpackedFloat.round format .positive n 0 =
      .finite .positive (n * 2 ^ (52 - n.log2)) ((n.log2 : Int) - 52) hpos := by
    have hshift : (0 - format.targetExponent (totalExponent n 0)).toNat = 52 - n.log2 := by
      rw [targetExponent_eq, totalExponent]
      omega
    have hexponent : (0 : Int) - (52 - n.log2 : Nat) = (n.log2 : Int) - 52 := by omega
    simp only [UnpackedFloat.round, decreaseExponent, hshift, Nat.shiftLeft_eq, hexponent]
    exact roundWithAccuracy_exact _ hlow hhigh (by omega) hpos
  have hnormalize : UnpackedFloat.ofUInt64 format n.toUInt64 =
      UnpackedFloat.round format .positive n 0 := by
    rw [UnpackedFloat.ofUInt64, UnpackedFloat.ofNat, UnpackedFloat.ofInt, UnpackedFloat.normalize,
      htoNat, Int.compare_eq_gt.2 (by omega)]
    rfl
  refine ⟨hpos, ?_⟩
  change unpack format (pack format (UnpackedFloat.ofUInt64 format n.toUInt64)) = _
  rw [hnormalize, hround]
  exact unpack_pack_normal _ hlow hhigh (by omega) (by omega) hpos

/-- Integers times powers of ten are rounded once. -/
theorem unpackedOfScientific_natCast {m : Nat} (hm : m ≠ 0) {e : Nat} (he : e ≤ 2048) :
    UnpackedFloat.ofScientific format m e =
      roundWithAccuracy format .positive (m * 2 ^ 53 * 10 ^ e) (-53) .exact := by
  have hexponents : (2 : Int) ^ format.exponentBits = 2048 := rfl
  have hbits : format.mantissaBits = 53 := rfl
  rw [UnpackedFloat.ofScientific, dif_neg hm, if_neg (by omega), if_neg (by omega),
    if_pos (Int.natCast_nonneg e), UnpackedFloat.mul, Nat.shiftLeft_eq, hbits, Int.toNat_natCast]
  rfl

theorem toModel_ofNat_of_le {n : Nat} (hn : 2 ^ 53 ≤ n) : (Float.ofNat n).toModel =
    Float.Model.pack (roundWithAccuracy format .positive (n * 2 ^ 53) (-53) .exact) := by
  have hscientific := unpackedOfScientific_natCast (m := n) (by omega) (Nat.zero_le 2048)
  rw [Nat.pow_zero, Nat.mul_one] at hscientific
  change (Float.ofScientific n false 0).toModel = _
  rw [Float.ofScientific, dif_neg (by omega)]
  exact congrArg Float.Model.pack hscientific

theorem isFinite_ofNat {n : Nat} (hn : n < 2 ^ 64) : (Float.ofNat n).isFinite := by
  by_cases hsmall : n < 2 ^ 53
  · change (Float.ofScientific n false 0).isFinite
    rw [Float.ofScientific, dif_pos ⟨hsmall, by decide⟩]
    change (n.toUInt64.toFloat * Float.exactlyRepresentablePowersOfTen[0]).isFinite
    have hone : Float.exactlyRepresentablePowersOfTen[0].toModel.unpack =
        .finite .positive (2 ^ 52) (-52) (by decide) := rfl
    by_cases h0 : n = 0
    · subst h0
      decide +kernel
    · obtain ⟨hm, hunpack⟩ := unpack_toFloat h0 hsmall
      have hlog := log2_le_of_lt h0 hsmall
      exact isFinite_mul hunpack hone (filled_mantissa h0 hlog).2 (by decide) (by omega)
  · change (Float.ofNat n).toModel.unpack.isFinite
    rw [toModel_ofNat_of_le (by omega)]
    refine isFinite_roundWithAccuracy _ _ (.inl ?_)
    have hlog : (n * 2 ^ 53).log2 < 117 := (Nat.log2_lt (by omega)).2 (by omega)
    rw [excess_eq]
    omega

theorem toNat_unpackExponent (b : BitVec format.numBits) :
    (unpackExponent b).toNat = b.toNat / 2 ^ 52 % 2 ^ 11 := by
  simp [unpackExponent, BitVec.extractLsb, Nat.shiftRight_eq_div_pow]

/-- Bits with an exponent other than the last one are a finite number. -/
theorem isFinite_ofBits {b : UInt64} (h : b.toNat / 2 ^ 52 % 2 ^ 11 ≠ 2047) :
    (Float.ofBits b).isFinite := by
  change (unpack format (pack format (unpack format b.toBitVec))).isFinite
  rw [unpack_pack_unpack]
  refine isFinite_unpack fun he => h ?_
  rw [← UInt64.toNat_toBitVec, ← toNat_unpackExponent, he]
  rfl

theorem isFinite_scaled {m : Nat} (hm : m < 2 ^ 53) : (scaled m 0).isFinite := by
  rw [scaled]
  split
  · decide +kernel
  · rename_i h0
    have hlog := log2_le_of_lt h0 hm
    obtain ⟨hlow, hhigh⟩ := filled_mantissa h0 hlog
    have htop : max ((m.log2 : Int) + 0 - 52) (-1074) = m.log2 - 52 := by omega
    have hzeros : (0 - ((m.log2 : Int) - 52)).toNat = 52 - m.log2 := by omega
    have hfield : ((m.log2 : Int) - 52 + 1075).toNat = m.log2 + 1023 := by omega
    have hle : (m.log2 : Int) - 52 ≤ 0 := by omega
    simp only [htop, hzeros, hfield, Nat.pow_eq, if_pos hle]
    rw [if_neg (by omega)]
    refine isFinite_ofBits ?_
    rw [UInt64.toNat_ofNat_of_lt' (Nat.lt_of_lt_of_le (by omega) (by decide : 2 ^ 63 ≤ _))]
    omega

theorem isFinite_withSign (negative : Bool) (x : Float) :
    (withSign negative x).isFinite = x.isFinite := by
  cases negative
  · rfl
  · exact isFinite_neg x

theorem mantissa_parts_lt (x : Float) : (parts x).mantissa < 2 ^ 53 := by
  have hfraction : fractionField x < 2 ^ 52 := Nat.mod_lt _ (by decide)
  rw [parts]
  split
  · exact Nat.lt_trans hfraction (by decide)
  · change fractionField x + 2 ^ 52 < 2 ^ 53
    omega

theorem isFinite_roundBy {f : Bool → Nat → Ordering → Nat} (hf : ∀ s n half, f s n half ≤ n + 1)
    {x : Float} (hx : x.isFinite) : (roundBy f x).isFinite := by
  have hmantissa := mantissa_parts_lt x
  simp only [roundBy]
  split
  · exact hx
  · rename_i h
    rw [isFinite_withSign]
    refine isFinite_scaled (Nat.lt_of_le_of_lt (hf _ _ _) ?_)
    simp only [Parts.isWhole, Bool.or_eq_true, Bool.not_eq_true', not_or, decide_eq_true_eq] at h
    rw [Parts.whole, if_neg h.2.1]
    have htwo : 2 ^ 1 ≤ 2 ^ (-(parts x).exponent).toNat :=
      Nat.pow_le_pow_right (by decide) (by omega)
    have hhalf : (parts x).mantissa / 2 ^ (-(parts x).exponent).toNat ≤
        (parts x).mantissa / 2 ^ 1 :=
      Nat.div_le_div_left htwo (by decide)
    rw [Nat.pow_eq]
    omega

theorem isFinite_floor {x : Float} (hx : x.isFinite) : (floor x).isFinite :=
  isFinite_roundBy (fun s n _ => by cases s <;> simp) hx

theorem isFinite_ceil {x : Float} (hx : x.isFinite) : (ceil x).isFinite :=
  isFinite_roundBy (fun s n _ => by cases s <;> simp) hx

theorem isFinite_round {x : Float} (hx : x.isFinite) : (round x).isFinite :=
  isFinite_roundBy (fun _ n half => by cases half <;> simp) hx

theorem isFinite_least {x y : Float} (hx : x.isFinite) (hy : y.isFinite) :
    (least x y).isFinite := by
  unfold least
  split
  · exact hy
  · split
    · exact hx
    · split <;> assumption

theorem isFinite_greatest {x y : Float} (hx : x.isFinite) (hy : y.isFinite) :
    (greatest x y).isFinite := by
  unfold greatest
  split
  · exact hy
  · split
    · exact hx
    · split <;> assumption

end RuleGraph.Number

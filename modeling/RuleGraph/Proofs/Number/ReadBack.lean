import Mathlib
import RuleGraph.Proofs.Number.Spelling
import RuleGraph.Proofs.Parsing.Rendering
/-!
# Written numbers are read back

A finite number is read back from each of its written forms, and in an expression such a text is a
literal of the number, with a sign of its own if it has one.
-/
namespace RuleGraph.Number
open Float.Model UnpackedFloat

variable {cs : List Char} {m : Nat} {e : Int}

theorem two_zpow_le_ten_zpow (k : Nat) : (2 : ℚ) ^ (-(4 * k) : Int) ≤ 10 ^ (-k : Int) := by
  have hsixteen : (2 : ℚ) ^ (-(4 * k) : Int) = 16⁻¹ ^ k := by
    rw [zpow_neg, zpow_mul, zpow_natCast, inv_pow]
    norm_num
  have hten : (10 : ℚ) ^ (-k : Int) = 10⁻¹ ^ k := by
    rw [zpow_neg, zpow_natCast, inv_pow]
  rw [hsixteen, hten]
  exact pow_le_pow_left₀ (by norm_num) (by norm_num) k

theorem log2_lt_of_value (he : -1200 ≤ e) (h : (m : ℚ) * 10 ^ e < 2 ^ (1024 : Int)) :
    m.log2 < 100000 := by
  by_cases hm : m = 0
  · rw [hm, Nat.log2_zero]
    decide
  have hdigits : (2 : ℚ) ^ (m.log2 : Int) ≤ m := by
    rw [zpow_natCast]
    exact_mod_cast Nat.log2_self_le hm
  have hten : (2 : ℚ) ^ (-(4 * (1200 : Nat)) : Int) ≤ 10 ^ e :=
    (two_zpow_le_ten_zpow 1200).trans (zpow_le_zpow_right₀ (by norm_num) he)
  have hlt : (2 : ℚ) ^ ((m.log2 : Int) + -(4 * (1200 : Nat))) < 2 ^ (1024 : Int) := by
    rw [zpow_add₀ two_ne_zero]
    exact (mul_le_mul hdigits hten (by positivity) (by positivity)).trans_lt h
  have := (zpow_lt_zpow_iff_right₀ one_lt_two).1 hlt
  omega

section
variable {x : Float} {s : Sign}

theorem signBit_of_zero (h : x.toModel.unpack = .zero s) : signBit x ↔ s = .negative := by
  rw [signBit_iff]
  change unpack format (bits x) = _ at h
  rw [UnpackedFloat.unpack] at h
  split at h
  · split at h <;> cases h
  · split at h
    · split at h
      · cases h
        exact Iff.rfl
      · cases h
    · cases h

theorem signBit_of_finite {n : Nat} {q : Int} {hn : 0 < n}
    (h : x.toModel.unpack = .finite s n q hn) : signBit x ↔ s = .negative := by
  have hparts : (parts x).negative = signBit x := by
    unfold parts
    split <;> rfl
  rw [← hparts]
  exact (parts_of_finite h).2.2

theorem neg_eq_negative_iff (s : Sign) : -s = .negative ↔ ¬s = .negative := by
  cases s with
  | positive => exact iff_of_true rfl nofun
  | negative => exact iff_of_false nofun fun h => h rfl

theorem signBit_neg (hx : x.isFinite) : signBit (-x) = !signBit x := by
  have hneg : (-x).toModel.unpack = x.toModel.unpack.neg := unpack_neg x.toModel
  rw [Bool.eq_iff_iff, Bool.not_eq_true', ← Bool.not_eq_true]
  obtain ⟨s, hu⟩ | ⟨s, n, q, hn, hu⟩ := unpack_of_isFinite hx <;> rw [hu] at hneg
  · rw [signBit_of_zero hneg, signBit_of_zero hu]
    exact neg_eq_negative_iff s
  · rw [signBit_of_finite hneg, signBit_of_finite hu]
    exact neg_eq_negative_iff s

theorem unpack_magnitude (hx : x.isFinite) :
    (withSign (signBit x) x).toModel.unpack = resign (fun _ => .positive) x.toModel.unpack := by
  have hneg : (-x).toModel.unpack = resign (- ·) x.toModel.unpack := by
    rw [← neg_eq_resign]
    exact unpack_neg x.toModel
  obtain ⟨s, hu⟩ | ⟨s, n, q, hn, hu⟩ := unpack_of_isFinite hx <;> rw [hu] at hneg ⊢
  · cases s with
    | positive => rw [withSign, if_neg (by simp [signBit_of_zero hu]), hu]; rfl
    | negative => rw [withSign, if_pos ((signBit_of_zero hu).2 rfl), hneg]; rfl
  · cases s with
    | positive => rw [withSign, if_neg (by simp [signBit_of_finite hu]), hu]; rfl
    | negative => rw [withSign, if_pos ((signBit_of_finite hu).2 rfl), hneg]; rfl

theorem ofDecimal_zero (e : Int) : ofDecimal 0 e = 0 := by
  rw [ofDecimal, if_pos (.inl rfl)]

/-- A decimal with the digits of a number is read as the magnitude of the number. -/
theorem ofDecimal_eq_magnitude {tie : Tie} (hx : x.isFinite)
    (hvalue : (m : ℚ) * 10 ^ e = (shortest tie x).value)
    (he : min (shortest tie x).exponent (-1) ≤ e) :
    ofDecimal m e = withSign (signBit x) x := by
  have hmagnitude := unpack_magnitude hx
  obtain ⟨s, hu⟩ | ⟨s, n, q, hn, hu⟩ := unpack_of_isFinite hx <;> rw [hu] at hmagnitude
  · have hten : (10 : ℚ) ^ e ≠ 0 := by positivity
    have hm : m = 0 := by simpa [shortest_of_zero tie hu, Decimal.value, hten] using hvalue
    rw [hm, ofDecimal_zero]
    exact eq_of_toModel_eq hmagnitude rfl
  · obtain ⟨hround, hexponent⟩ := roundsTo_shortest tie hu
    obtain ⟨hcanonical, hq⟩ := isCanonical_of_unpack hu
    rw [← hvalue] at hround
    exact ofDecimal_of_roundsTo hmagnitude hround
      (log2_lt_of_value (by omega) (hround.lt_greatest hcanonical hq))

/-- Every text of the digits of a finite number is one token. -/
theorem IsSpelling.lexedAs {tie : Tie} (h : IsSpelling cs (shortest tie x)) (hx : x.isFinite) :
    Lexer.LexedAs cs [.number (withSign (signBit x) x)] := by
  obtain ⟨m, e, hdecimal, hvalue, he⟩ := h
  have heq := ofDecimal_eq_magnitude hx hvalue he
  rw [← heq]
  refine hdecimal.lexedAs ?_
  rw [heq, isFinite_withSign]
  exact hx

end

theorem write_of_isFinite (n : Notation) {x : Float} (hx : x.isFinite) :
    n.write x = if signBit x then '-' :: n.magnitude (shortest n.tie x)
      else n.magnitude (shortest n.tie x) := by
  have hnan : x.isNaN = false := by
    change x.toModel.unpack.isNaN = false
    obtain ⟨s, hu⟩ | ⟨s, m, e, hm, hu⟩ := unpack_of_isFinite hx <;> rw [hu] <;> rfl
  have hinf : x.isInf = false := by
    change x.toModel.unpack.isInf = false
    obtain ⟨s, hu⟩ | ⟨s, m, e, hm, hu⟩ := unpack_of_isFinite hx <;> rw [hu] <;> rfl
  simp only [Notation.write, hnan, hinf, Bool.false_eq_true, if_false]

/-- A finite number is read back from each of its written forms. -/
theorem read_write (n : Notation) {x : Float} (hx : x.isFinite) :
    Number.read (n.write x) = some x := by
  obtain ⟨m, e, hdecimal, hvalue, he⟩ := isSpelling_magnitude n (shortest n.tie x)
  have hmagnitude := ofDecimal_eq_magnitude hx hvalue he
  rw [write_of_isFinite n hx]
  by_cases hsign : signBit x
  · rw [if_pos hsign, Number.read]
    simp [takeSign, hdecimal.readMagnitude, hmagnitude, withSign, hsign, neg_neg]
  · rw [if_neg hsign, hdecimal.read, hmagnitude, withSign, if_neg hsign]

theorem lexedAs_minus {lexemes : List Lexeme} (h : Lexer.LexedAs cs lexemes) :
    Lexer.LexedAs ('-' :: cs) (.minus :: lexemes) :=
  h.single (by decide) (.symbol (by decide) (by decide) (by decide +kernel) rfl)

/-- The text of a finite number is a literal of the number. -/
theorem lexedAs_write (n : Notation) {x : Float} (hx : x.isFinite) :
    Lexer.LexedAs (n.write x) (Value.number x).lexemes := by
  have hlexed := (isSpelling_magnitude n (shortest n.tie x)).lexedAs hx
  rw [write_of_isFinite n hx, Value.lexemes]
  by_cases hsign : signBit x
  · rw [if_pos hsign, if_pos hsign]
    rw [withSign, if_pos hsign] at hlexed
    exact lexedAs_minus hlexed
  · rw [if_neg hsign, if_neg hsign]
    rwa [withSign, if_neg hsign] at hlexed

theorem isDecimal_digitChars (n : Nat) : IsDecimal (digitChars n) n 0 := by
  have hdecimal := IsDecimal.whole (allDigits_digitChars n) (digitChars_ne_nil n) .none
  rwa [List.append_nil, appendDigits_digitChars] at hdecimal

theorem ofDecimal_natCast {n : Nat} (hn : n < 2 ^ 64) : ofDecimal n 0 = Float.ofNat n := by
  by_cases h0 : n = 0
  · rw [h0, ofDecimal_zero]
    rfl
  · have hlog : n.log2 < 64 := (Nat.log2_lt h0).2 hn
    rw [ofDecimal, if_neg (by omega), if_neg (by omega)]
    rfl

theorem sign_pack_finite (s : Sign) {m : Nat} {e : Int} (hm : 0 < m) :
    Sign.ofBitVec (unpackSign (pack format (.finite s m e hm))) = s := by
  simp only [UnpackedFloat.pack, packedInfinity]
  split
  · rw [unpackSign_packComponents, Sign.ofBitVec_toBitVec]
  · split <;> rw [unpackSign_packComponents, Sign.ofBitVec_toBitVec]

theorem sign_pack_roundWithAccuracy (s : Sign) (m : Nat) (e : Int) (a : Accuracy) :
    Sign.ofBitVec (unpackSign (pack format (roundWithAccuracy format s m e a))) = s := by
  rw [roundWithAccuracy_eq]
  split
  · rw [UnpackedFloat.pack, packedZero, unpackSign_packComponents, Sign.ofBitVec_toBitVec]
  · split <;> exact sign_pack_finite s _

theorem signBit_ofNat (n : Nat) : signBit (Float.ofNat n) = false := by
  by_cases h0 : n = 0
  · rw [h0]
    decide +kernel
  rw [← Bool.not_eq_true]
  by_cases hn : n < 2 ^ 53
  · obtain ⟨hm, hunpack⟩ := unpack_ofNat h0 hn
    rw [signBit_of_finite hunpack]
    exact nofun
  · have hbits : bits (Float.ofNat n) =
        pack format (roundWithAccuracy format .positive (n * 2 ^ 53) (-53) .exact) :=
      congrArg (fun x : Float.Model => x.toBits.toBitVec) (toModel_ofNat_of_le (Nat.not_lt.1 hn))
    rw [signBit_iff, hbits, sign_pack_roundWithAccuracy]
    exact nofun

theorem ofInt_eq_withSign (n : Int) :
    Float.ofInt n = withSign (decide (n < 0)) (Float.ofNat n.natAbs) := by
  by_cases hn : n < 0
  · conv_lhs => rw [← Int.neg_neg n, ← Int.ofNat_natAbs_of_nonpos hn.le]
    rw [withSign, if_pos (decide_eq_true hn)]
    exact ofInt_neg (by omega)
  · conv_lhs => rw [← Int.natAbs_of_nonneg (Int.not_lt.1 hn)]
    rw [withSign, if_neg (by simpa using hn)]
    rfl

theorem isFinite_ofInt {n : Int} (h : n.natAbs < 2 ^ 64) : (Float.ofInt n).isFinite := by
  rw [ofInt_eq_withSign, isFinite_withSign]
  exact isFinite_ofNat h

/-- The text of an integer is a literal of the number nearest to it. -/
theorem lexedAs_intChars {n : Int} (h : n.natAbs < 2 ^ 64) :
    Lexer.LexedAs (intChars n) (Value.number (Float.ofInt n)).lexemes := by
  have hlexed := (isDecimal_digitChars n.natAbs).lexedAs
    (by rw [ofDecimal_natCast h]; exact isFinite_ofNat h)
  rw [ofDecimal_natCast h] at hlexed
  have hsign := signBit_ofNat n.natAbs
  rw [intChars, Value.lexemes, ofInt_eq_withSign]
  by_cases hn : n < 0
  · rw [if_pos hn, decide_eq_true hn, withSign, if_pos rfl, signBit_neg (isFinite_ofNat h), hsign,
      Bool.not_false, if_pos rfl, neg_neg]
    exact lexedAs_minus hlexed
  · rw [if_neg hn, decide_eq_false hn, withSign, if_neg Bool.false_ne_true, hsign,
      if_neg Bool.false_ne_true]
    exact hlexed

end RuleGraph.Number

import Mathlib
import RuleGraph.Number.Shortest
import RuleGraph.Proofs.Number.Decimals
import RuleGraph.Proofs.Number.Exact
/-!
# Digits that identify a number

The digits that a number is written with are those of a decimal in its interval, whichever of two
equally near ones is chosen, so that the decimal is read as the number again.
-/
namespace RuleGraph.Number
open Float.Model UnpackedFloat

/-- The number that a decimal stands for. -/
def Decimal.value (d : Decimal) : ℚ :=
  d.digits * 10 ^ d.exponent

theorem Decimal.eq_of_value {d d' : Decimal} (hexponent : d.exponent = d'.exponent)
    (hvalue : d.value = d'.value) : d = d' := by
  obtain ⟨n, e⟩ := d
  obtain ⟨n', e'⟩ := d'
  obtain rfl : e = e' := hexponent
  have hten : (10 : ℚ) ^ e ≠ 0 := by positivity
  have hdigits : (n : ℚ) = n' := mul_right_cancel₀ hten hvalue
  rw [Nat.cast_inj.1 hdigits]

section
variable {a d m : Nat} {e q : Int}

theorem quarters_eq : (a / 4 : ℚ) * 2 ^ q = a * 2 ^ q.toNat / (4 * 2 ^ (-q).toNat) := by
  rw [zpow_eq_div two_ne_zero, div_mul_div_comm]

theorem decimal_eq : (d : ℚ) * 10 ^ e = d * 10 ^ e.toNat / 10 ^ (-e).toNat := by
  rw [zpow_eq_div (by norm_num), mul_div_assoc]

theorem quarters_le_iff :
    (a / 4 : ℚ) * 2 ^ q ≤ d * 10 ^ e ↔
      a * Nat.pow 2 q.toNat * Nat.pow 10 (-e).toNat ≤
        d * Nat.pow 10 e.toNat * (4 * Nat.pow 2 (-q).toNat) := by
  rw [quarters_eq, decimal_eq, div_le_div_iff₀ (by positivity) (by positivity)]
  exact_mod_cast Iff.rfl

theorem le_quarters_iff :
    (d : ℚ) * 10 ^ e ≤ a / 4 * 2 ^ q ↔
      d * Nat.pow 10 e.toNat * (4 * Nat.pow 2 (-q).toNat) ≤
        a * Nat.pow 2 q.toNat * Nat.pow 10 (-e).toNat := by
  rw [quarters_eq, decimal_eq, div_le_div_iff₀ (by positivity) (by positivity)]
  exact_mod_cast Iff.rfl

theorem holds_iff {i : Interval} :
    i.holds d e ↔
      if i.closed then
        i.low * Nat.pow 10 (-e).toNat ≤ d * Nat.pow 10 e.toNat * i.scale ∧
          d * Nat.pow 10 e.toNat * i.scale ≤ i.high * Nat.pow 10 (-e).toNat
      else
        ¬d * Nat.pow 10 e.toNat * i.scale ≤ i.low * Nat.pow 10 (-e).toNat ∧
          ¬i.high * Nat.pow 10 (-e).toNat ≤ d * Nat.pow 10 e.toNat * i.scale := by
  unfold Interval.holds
  cases i.closed <;> simp

/-- A decimal that is found to be in the interval rounds to the number. -/
theorem roundsTo_of_holds (hm : 0 < m) (h : (Interval.ofParts m q).holds d e) :
    RoundsTo m q (d * 10 ^ e) := by
  have hpos : (0 : ℚ) < 2 ^ q := by positivity
  have hhalf : ((4 * m - 2 : Nat) / 4 : ℚ) = m - 1 / 2 := by
    rw [Nat.cast_sub (by omega)]
    push_cast
    ring
  have hquarter : ((4 * m - 1 : Nat) / 4 : ℚ) = m - 1 / 4 := by
    rw [Nat.cast_sub (by omega)]
    push_cast
    ring
  have habove : ((4 * m + 2 : Nat) / 4 : ℚ) = m + 1 / 2 := by
    push_cast
    ring
  rw [holds_iff] at h
  simp only [Interval.ofParts, decide_eq_true_eq, ← quarters_le_iff, ← le_quarters_iff,
    habove] at h
  by_cases heven : m % 2 = 0
  · rw [if_pos heven] at h
    obtain ⟨hlow, hhigh⟩ := h
    by_cases hnarrow : m = Nat.pow 2 52 ∧ -1074 < q
    · rw [if_pos hnarrow, hquarter] at hlow
      refine ⟨?_, hhigh, fun _ _ => hlow, fun hodd => by omega⟩
      exact le_trans (mul_le_mul_of_nonneg_right (by linarith) hpos.le) hlow
    · rw [if_neg hnarrow, hhalf] at hlow
      exact ⟨hlow, hhigh, fun hm hq => absurd ⟨hm, hq⟩ hnarrow, fun hodd => by omega⟩
  · have hnarrow : ¬(m = Nat.pow 2 52 ∧ -1074 < q) := fun h => heven (by rw [h.1])
    rw [if_neg heven, if_neg hnarrow, hhalf, not_le, not_le] at h
    obtain ⟨hlow, hhigh⟩ := h
    exact ⟨hlow.le, hhigh.le, fun hm hq => absurd ⟨hm, hq⟩ hnarrow, fun _ => ⟨hlow, hhigh⟩⟩

end

theorem holds_of_onGrid {i : Interval} {tie : Tie} {e : Int} {d : Nat}
    (h : i.onGrid tie e = some d) : i.holds d e := by
  unfold Interval.onGrid at h
  dsimp only at h
  split at h
  · next hbelow _ =>
    cases h
    exact hbelow
  · next _ habove =>
    cases h
    exact habove
  · cases h
  · next hbelow habove =>
    have hchoose : d = i.below e ∨ d = i.below e + 1 := by
      split at h <;> cases h
      · exact .inl rfl
      · exact .inr rfl
      · cases tie with
        | even =>
          simp only [Tie.choose]
          omega
        | up => exact .inr rfl
    rcases hchoose with rfl | rfl
    · exact hbelow
    · exact habove

/-- The first grid with a decimal in the interval gives the digits. -/
theorem holds_of_search {i : Interval} {tie : Tie} {n : Nat} {e : Int} {d : Decimal}
    (h : i.search tie n e = some d) : i.holds d.digits d.exponent ∧ e - n < d.exponent := by
  induction n generalizing e with
  | zero => cases h
  | succ n ih =>
    rw [Interval.search] at h
    split at h
    · next d' hgrid =>
      cases h
      exact ⟨holds_of_onGrid hgrid, by simp only; omega⟩
    · obtain ⟨hholds, hexponent⟩ := ih h
      exact ⟨hholds, by omega⟩

/-- Whether a grid has a decimal in the interval does not depend on the choice between two. -/
theorem isSome_onGrid (i : Interval) (tie : Tie) (e : Int) :
    (i.onGrid tie e).isSome = (i.holds (i.below e) e || i.holds (i.below e + 1) e) := by
  unfold Interval.onGrid
  dsimp only
  split
  · next hbelow _ => simp [hbelow]
  · next _ habove => simp [habove]
  · next hbelow habove => simp [hbelow, habove]
  · next hbelow _ => split <;> simp [hbelow]

theorem search_map_exponent (i : Interval) (tie tie' : Tie) (n : Nat) (e : Int) :
    (i.search tie n e).map Decimal.exponent = (i.search tie' n e).map Decimal.exponent := by
  induction n generalizing e with
  | zero => rfl
  | succ n ih =>
    have hsome := (isSome_onGrid i tie e).trans (isSome_onGrid i tie' e).symm
    rw [Interval.search, Interval.search]
    cases hgrid : i.onGrid tie e with
    | none =>
      rw [hgrid, Option.isSome_none, eq_comm, Option.isSome_eq_false_iff,
        Option.isNone_iff_eq_none] at hsome
      simpa only [hsome] using ih (e - 1)
    | some d =>
      rw [hgrid, Option.isSome_some, eq_comm, Option.isSome_iff_exists] at hsome
      obtain ⟨d', hgrid'⟩ := hsome
      simp only [hgrid', Option.map_some]

theorem le_magnitude (i : Interval) (k : Nat) (e : Int) : e ≤ i.magnitude k e := by
  induction k generalizing e with
  | zero => exact Int.le_refl e
  | succ k ih =>
    rw [Interval.magnitude]
    split
    · exact Int.le_refl e
    · exact Int.le_trans (by omega) (ih (e + 1))

theorem value_exact (m : Nat) (q : Int) : (Decimal.exact m q).value = m * 2 ^ q := by
  unfold Decimal.exact
  split
  · next hq =>
    have habs : (2 : ℚ) ^ q = 2 ^ q.toNat := by
      conv_lhs => rw [← Int.toNat_of_nonneg hq, zpow_natCast]
    simp [Decimal.value, habs]
  · next hq =>
    have habs : q = -((-q).toNat : Int) := by omega
    generalize (-q).toNat = k at habs
    subst habs
    have hten : (10 : ℚ) ^ k = 2 ^ k * 5 ^ k := by
      rw [← mul_pow]
      norm_num
    simp only [Decimal.value, zpow_neg, zpow_natCast, hten, Nat.pow_eq]
    push_cast
    field_simp

theorem value_trim (k : Nat) (d : Decimal) :
    (d.trim k).value = d.value ∧ d.exponent ≤ (d.trim k).exponent := by
  induction k generalizing d with
  | zero => exact ⟨rfl, Int.le_refl _⟩
  | succ k ih =>
    rw [Decimal.trim]
    split
    · next h =>
      obtain ⟨hvalue, hexponent⟩ := ih ⟨d.digits / 10, d.exponent + 1⟩
      refine ⟨?_, Int.le_trans (by simp only; omega) hexponent⟩
      have hdigits : (d.digits : ℚ) = 10 * (d.digits / 10 : Nat) := by
        exact_mod_cast (Nat.mul_div_cancel' (Nat.dvd_of_mod_eq_zero h.2)).symm
      rw [hvalue, Decimal.value, Decimal.value, hdigits, zpow_add_one₀ (by norm_num)]
      ring
    · exact ⟨rfl, Int.le_refl _⟩

theorem shortest_of_zero (tie : Tie) {x : Float} {s : Sign} (hx : x.toModel.unpack = .zero s) :
    shortest tie x = ⟨0, 0⟩ := by
  rw [shortest]
  simp only [mantissa_of_zero hx, if_true]

theorem shortest_eq_of_value {tie tie' : Tie} {x : Float}
    (h : (shortest tie x).value = (shortest tie' x).value) : shortest tie x = shortest tie' x := by
  rw [shortest, shortest] at h ⊢
  dsimp only at h ⊢
  split
  · rfl
  · next hmantissa =>
    rw [if_neg hmantissa, if_neg hmantissa, (value_trim _ _).1, (value_trim _ _).1] at h
    rw [Decimal.eq_of_value ?_ h]
    rw [← Option.getD_map Decimal.exponent, search_map_exponent _ tie tie', Option.getD_map]

/-- The digits of a finite number other than zero lie in its interval. -/
theorem roundsTo_shortest (tie : Tie) {x : Float} {s : Sign} {m : Nat} {q : Int} {hm : 0 < m}
    (hx : x.toModel.unpack = .finite s m q hm) :
    RoundsTo m q (shortest tie x).value ∧ -1200 ≤ (shortest tie x).exponent := by
  obtain ⟨hmantissa, hexponent, -⟩ := parts_of_finite hx
  obtain ⟨hcanonical, hq⟩ := isCanonical_of_unpack hx
  have hleast := hcanonical.least
  rw [shortest]
  simp only [hmantissa, hexponent, if_neg hm.ne']
  generalize hlog : ((m.log2 : Int) + q) * 30103 / 100000 = log
  have htop := le_magnitude (Interval.ofParts m q) 4 (log - 1)
  generalize (Interval.ofParts m q).magnitude 4 (log - 1) = top at htop
  have hfound : RoundsTo m q
        (((Interval.ofParts m q).search tie 17 (top - 1)).getD (.exact m q)).value ∧
      -1200 ≤ (((Interval.ofParts m q).search tie 17 (top - 1)).getD (.exact m q)).exponent := by
    cases hsearch : (Interval.ofParts m q).search tie 17 (top - 1) with
    | none =>
      rw [Option.getD_none, value_exact]
      refine ⟨roundsTo_self m q, ?_⟩
      rw [Decimal.exact]
      split <;> simp only <;> omega
    | some d =>
      obtain ⟨hholds, hexponent⟩ := holds_of_search hsearch
      exact ⟨roundsTo_of_holds hm hholds, by simp only [Option.getD_some]; omega⟩
  obtain ⟨hvalue, hle⟩ := value_trim 400
    (((Interval.ofParts m q).search tie 17 (top - 1)).getD (.exact m q))
  exact ⟨hvalue ▸ hfound.1, Int.le_trans hfound.2 hle⟩

end RuleGraph.Number

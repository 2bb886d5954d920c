import Mathlib
import RuleGraph.Number.Notation
import RuleGraph.Proofs.Number.Identifying
import RuleGraph.Proofs.Parsing.Alternatives
/-!
# Spellings of a decimal

Digits are written positionally or with an exponent. Each of these texts is one of a decimal with
the same value, all of it belongs to one token, and it is read as the number nearest to the decimal.
-/
namespace RuleGraph.Number
open Float.Model UnpackedFloat

def AllDigits (cs : List Char) : Prop :=
  ∀ c ∈ cs, c.isDigit

theorem allDigits_digitChars (n : Nat) : AllDigits (digitChars n) :=
  fun _ => Nat.isDigit_of_mem_toDigits (by decide) (by decide)

theorem digitChars_ne_nil (n : Nat) : digitChars n ≠ [] :=
  Nat.toDigits_ne_nil

theorem AllDigits.append {ds es : List Char} (hds : AllDigits ds) (hes : AllDigits es) :
    AllDigits (ds ++ es) :=
  List.forall_mem_append.2 ⟨hds, hes⟩

theorem allDigits_zeros (n : Nat) : AllDigits (List.replicate n '0') := by
  intro c hc
  rw [List.eq_of_mem_replicate hc]
  rfl

theorem appendDigits_append (n : Nat) (ds es : List Char) :
    appendDigits n (ds ++ es) = appendDigits (appendDigits n ds) es :=
  List.foldl_append

theorem appendDigits_digitChars (n : Nat) : appendDigits 0 (digitChars n) = n :=
  Nat.ofDigitChars_ten_toDigits

theorem appendDigits_zeros (m n : Nat) : appendDigits m (List.replicate n '0') = 10 ^ n * m :=
  Nat.ofDigitChars_replicate_zero

/-- The texts of exponents. -/
inductive IsExponent : List Char → Int → Prop
  | none : IsExponent [] 0
  | plain {ds : List Char} (hds : AllDigits ds) (hne : ds ≠ []) :
    IsExponent ('e' :: ds) (appendDigits 0 ds)
  | plus {ds : List Char} (hds : AllDigits ds) (hne : ds ≠ []) :
    IsExponent ('e' :: '+' :: ds) (appendDigits 0 ds)
  | minus {ds : List Char} (hds : AllDigits ds) (hne : ds ≠ []) :
    IsExponent ('e' :: '-' :: ds) (-(appendDigits 0 ds : Int))

/-- The texts of decimals `m · 10 ^ e` without a sign. -/
inductive IsDecimal : List Char → Nat → Int → Prop
  | whole {ds tail : List Char} {e : Int} (hds : AllDigits ds) (hne : ds ≠ [])
    (htail : IsExponent tail e) : IsDecimal (ds ++ tail) (appendDigits 0 ds) e
  | fraction {ds fs tail : List Char} {e : Int} (hds : AllDigits ds) (hne : ds ≠ [])
    (hfs : AllDigits fs) (hfsNe : fs ≠ []) (htail : IsExponent tail e) :
    IsDecimal (ds ++ '.' :: (fs ++ tail)) (appendDigits 0 (ds ++ fs)) (e - fs.length)

variable {cs ds tail : List Char} {m : Nat} {e : Int}

theorem AllDigits.takeWhile (hds : AllDigits ds) (rest : List Char)
    (hrest : ∀ c ∈ rest.head?, c.isDigit = false) :
    (ds ++ rest).takeWhile Char.isDigit = ds ∧ (ds ++ rest).dropWhile Char.isDigit = rest := by
  induction ds with
  | nil =>
    cases rest with
    | nil => exact ⟨rfl, rfl⟩
    | cons c rest => simp [hrest c rfl]
  | cons c ds ih =>
    obtain ⟨hc, hds⟩ := List.forall_mem_cons.1 hds
    obtain ⟨htake, hdrop⟩ := ih hds
    simp [hc, htake, hdrop]

theorem IsExponent.head? (h : IsExponent tail e) : ∀ c ∈ tail.head?, c.isDigit = false := by
  cases h with
  | none => exact nofun
  | plain | plus | minus => rintro _ ⟨⟩; rfl

theorem takeSign_of_isDigit {c : Char} (hc : c.isDigit) (cs : List Char) :
    takeSign (c :: cs) = (false, c :: cs) := by
  unfold takeSign
  split
  · cases ‹_ = _›; cases hc
  · cases ‹_ = _›; cases hc
  · rfl

theorem AllDigits.takeSign (hds : AllDigits ds) : takeSign ds = (false, ds) := by
  cases ds with
  | nil => rfl
  | cons c ds => exact takeSign_of_isDigit (List.forall_mem_cons.1 hds).1 ds

theorem IsExponent.read (h : IsExponent tail e) : readExponent tail = some e := by
  cases h with
  | none => rfl
  | plain hds hne => simp [readExponent, hds.takeSign, hne, List.all_eq_true.2 hds]
  | plus hds hne => simp [readExponent, Number.takeSign, hne, List.all_eq_true.2 hds]
  | minus hds hne => simp [readExponent, Number.takeSign, hne, List.all_eq_true.2 hds]

theorem AllDigits.append_inj {es rest rest' : List Char} (hds : AllDigits ds) (hes : AllDigits es)
    (hrest : ∀ c ∈ rest.head?, c.isDigit = false) (hrest' : ∀ c ∈ rest'.head?, c.isDigit = false)
    (h : ds ++ rest = es ++ rest') : ds = es ∧ rest = rest' := by
  obtain ⟨htake, hdrop⟩ := hds.takeWhile rest hrest
  obtain ⟨htake', hdrop'⟩ := hes.takeWhile rest' hrest'
  rw [h] at htake hdrop
  exact ⟨htake.symm.trans htake', hdrop.symm.trans hdrop'⟩

theorem IsExponent.unique {e' : Int} (h : IsExponent tail e) (h' : IsExponent tail e') :
    e = e' :=
  Option.some.inj (h.read.symm.trans h'.read)

theorem IsExponent.ne_point {rest : List Char} (h : IsExponent tail e) : tail ≠ '.' :: rest := by
  cases h <;> simp

/-- A text is one of one decimal only. -/
theorem IsDecimal.unique {m' : Nat} {e' : Int} (h : IsDecimal cs m e) (h' : IsDecimal cs m' e') :
    m = m' ∧ e = e' := by
  have hpoint {rest : List Char} : ∀ c ∈ ('.' :: rest).head?, c.isDigit = false := by
    rintro _ ⟨⟩
    rfl
  generalize hcs : cs = text at h'
  cases h with
  | whole hds hne htail =>
    cases h' with
    | whole hds' hne' htail' =>
      obtain ⟨rfl, rfl⟩ := hds.append_inj hds' htail.head? htail'.head? hcs
      exact ⟨rfl, htail.unique htail'⟩
    | fraction hds' hne' hfs' hfsNe' htail' =>
      exact absurd (hds.append_inj hds' htail.head? hpoint hcs).2 htail.ne_point
  | fraction hds hne hfs hfsNe htail =>
    cases h' with
    | whole hds' hne' htail' =>
      exact absurd (hds.append_inj hds' hpoint htail'.head? hcs).2.symm htail'.ne_point
    | fraction hds' hne' hfs' hfsNe' htail' =>
      obtain ⟨rfl, hrest⟩ := hds.append_inj hds' hpoint hpoint hcs
      obtain ⟨rfl, rfl⟩ := hfs.append_inj hfs' htail.head? htail'.head? (List.cons.inj hrest).2
      exact ⟨rfl, by rw [htail.unique htail']⟩

theorem IsDecimal.readMagnitude (h : IsDecimal cs m e) :
    readMagnitude cs = some (ofDecimal m e) := by
  cases h with
  | @whole ds tail e hds hne htail =>
    obtain ⟨htake, hdrop⟩ := hds.takeWhile tail htail.head?
    have hread := htail.read
    have hnil : ∀ n, appendDigits n [] = n := fun _ => rfl
    simp only [Number.readMagnitude, htake, hdrop]
    cases htail <;> simp [hread, hne, hnil]
  | @fraction ds fs tail e hds hne hfs hfsNe htail =>
    obtain ⟨htake, hdrop⟩ := hds.takeWhile ('.' :: (fs ++ tail)) (by rintro _ ⟨⟩; rfl)
    obtain ⟨htake', hdrop'⟩ := hfs.takeWhile tail htail.head?
    simp only [Number.readMagnitude, htake, hdrop, htake', hdrop', htail.read, hne, false_and,
      appendDigits_append]
    rfl

theorem AllDigits.digitsLength (hds : AllDigits ds) (rest : List Char) :
    Lexer.digitsLength (ds ++ rest) = ds.length + Lexer.digitsLength rest := by
  induction ds with
  | nil => exact (Nat.zero_add _).symm
  | cons c ds ih =>
    obtain ⟨hc, hds⟩ := List.forall_mem_cons.1 hds
    rw [List.cons_append, Lexer.digitsLength, ih hds, List.length_cons]
    simp [hc, Nat.add_right_comm]

theorem AllDigits.signLength (hds : AllDigits ds) : Lexer.signLength ds = 0 := by
  cases ds with
  | nil => rfl
  | cons c ds =>
    have hc := (List.forall_mem_cons.1 hds).1
    unfold Lexer.signLength
    split
    · cases ‹_ = _›; cases hc
    · cases ‹_ = _›; cases hc
    · rfl

theorem IsExponent.digitsLength (h : IsExponent tail e) : Lexer.digitsLength tail = 0 := by
  cases h <;> rfl

theorem IsExponent.exponentLength (h : IsExponent tail e) :
    Lexer.exponentLength tail = tail.length := by
  have htake : ∀ {ds}, AllDigits ds → ds.takeWhile Char.isDigit = ds := fun hds => by
    simpa using (hds.takeWhile [] nofun).1
  cases h with
  | none => rfl
  | plain hds hne =>
    simp [Lexer.exponentLength_cons, hds.signLength, htake hds, hne, Nat.add_comm]
  | plus hds hne =>
    simp [Lexer.exponentLength_cons, Lexer.signLength, htake hds, hne]
    omega
  | minus hds hne =>
    simp [Lexer.exponentLength_cons, Lexer.signLength, htake hds, hne]
    omega

/-- A decimal is one token: nothing of it is left behind its digits and its exponent. -/
theorem IsDecimal.numberLength (h : IsDecimal cs m e) :
    ∃ c rest, cs = c :: rest ∧ c.isDigit ∧ Lexer.numberLength rest = rest.length := by
  cases h with
  | @whole ds tail e hds hne htail =>
    obtain ⟨c, ds, rfl⟩ := List.exists_cons_of_ne_nil hne
    obtain ⟨hc, hds⟩ := List.forall_mem_cons.1 hds
    refine ⟨c, ds ++ tail, rfl, hc, ?_⟩
    rw [Lexer.numberLength, AllDigits.digitsLength hds, htail.digitsLength, Nat.add_zero,
      List.drop_left, htail.exponentLength, List.length_append]
  | @fraction ds fs tail e hds hne hfs hfsNe htail =>
    obtain ⟨c, ds, rfl⟩ := List.exists_cons_of_ne_nil hne
    obtain ⟨hc, hds⟩ := List.forall_mem_cons.1 hds
    refine ⟨c, ds ++ '.' :: (fs ++ tail), rfl, hc, ?_⟩
    have hpoint : Lexer.digitsLength ('.' :: (fs ++ tail)) = fs.length + 1 := by
      obtain ⟨d, fs, rfl⟩ := List.exists_cons_of_ne_nil hfsNe
      have hd := (List.forall_mem_cons.1 hfs).1
      rw [Lexer.digitsLength, AllDigits.digitsLength hfs, htail.digitsLength]
      simp [Lexer.startsWithDigit, hd]
    have hdrop : (ds ++ '.' :: (fs ++ tail)).drop (ds.length + (fs.length + 1)) = tail := by
      rw [← List.drop_drop, List.drop_left, List.drop_succ_cons, List.drop_left]
    rw [Lexer.numberLength, AllDigits.digitsLength hds, hpoint, hdrop, htail.exponentLength]
    simp
    omega

theorem ne_underscore_of_isDigit {c : Char} (h : c.isDigit) : c ≠ '_' := by
  rintro rfl
  cases h

theorem IsExponent.ne_underscore (h : IsExponent tail e) : ∀ c ∈ tail, c ≠ '_' := by
  have hdigits : ∀ {ds}, AllDigits ds → ∀ c ∈ ds, c ≠ '_' := fun hds c hc =>
    ne_underscore_of_isDigit (hds c hc)
  cases h with
  | none => exact nofun
  | plain hds hne => exact List.forall_mem_cons.2 ⟨by decide, hdigits hds⟩
  | plus hds hne | minus hds hne =>
    exact List.forall_mem_cons.2 ⟨by decide, List.forall_mem_cons.2 ⟨by decide, hdigits hds⟩⟩

theorem IsDecimal.ne_underscore (h : IsDecimal cs m e) : ∀ c ∈ cs, c ≠ '_' := by
  cases h with
  | whole hds hne htail =>
    exact List.forall_mem_append.2
      ⟨fun c hc => ne_underscore_of_isDigit (hds c hc), htail.ne_underscore⟩
  | fraction hds hne hfs hfsNe htail =>
    exact List.forall_mem_append.2 ⟨fun c hc => ne_underscore_of_isDigit (hds c hc),
      List.forall_mem_cons.2 ⟨by decide, List.forall_mem_append.2
        ⟨fun c hc => ne_underscore_of_isDigit (hfs c hc), htail.ne_underscore⟩⟩⟩

theorem IsDecimal.read (h : IsDecimal cs m e) : Number.read cs = some (ofDecimal m e) := by
  obtain ⟨c, rest, rfl, hc, -⟩ := h.numberLength
  rw [Number.read, takeSign_of_isDigit hc]
  simp [h.readMagnitude, withSign]

theorem IsDecimal.lexedAs (h : IsDecimal cs m e) (hfinite : (ofDecimal m e).isFinite) :
    Lexer.LexedAs cs [.number (ofDecimal m e)] := by
  have hfilter : cs.filter (· != '_') = cs :=
    List.filter_eq_self.2 fun c hc => by simpa using h.ne_underscore c hc
  have hnumber : Lexer.number cs = .ok (.number (ofDecimal m e)) := by
    simp only [Lexer.number, hfilter, h.read, hfinite, if_true]
  obtain ⟨c, rest, rfl, hc, hlength⟩ := h.numberLength
  have hblank : Text.isBlank c = false :=
    Lexer.isBlank_of_isNameChar (Lexer.isNameChar_of_isDigit hc)
  have hbegins : Lexer.Begins c (rest ++ []) (.number (ofDecimal m e)) rest.length := by
    rw [List.append_nil]
    have hbegins : Lexer.Begins c rest (.number (ofDecimal m e)) (Lexer.numberLength rest) :=
      .number hc (by rwa [hlength, List.take_length])
    rwa [hlength] at hbegins
  have hlexed := Lexer.lexedAs_nil.token hblank hbegins
  rwa [List.append_nil] at hlexed

theorem isDecimal_point {fs : List Char} (hds : AllDigits ds) (hne : ds ≠ []) (hfs : AllDigits fs)
    (hfsNe : fs ≠ []) : IsDecimal (ds ++ '.' :: fs) (appendDigits 0 (ds ++ fs)) (-fs.length) := by
  have hdecimal := IsDecimal.fraction hds hne hfs hfsNe .none
  rwa [List.append_nil, Int.zero_sub] at hdecimal

/-- A text is one of a decimal that is equal to `d` and has no more than one digit behind its
digits. -/
def IsSpelling (cs : List Char) (d : Decimal) : Prop :=
  ∃ m e, IsDecimal cs m e ∧ (m : ℚ) * 10 ^ e = d.value ∧ min d.exponent (-1) ≤ e

theorem IsSpelling.value_eq {d d' : Decimal} (h : IsSpelling cs d) (h' : IsSpelling cs d') :
    d.value = d'.value := by
  obtain ⟨m, e, hdecimal, hvalue, -⟩ := h
  obtain ⟨m', e', hdecimal', hvalue', -⟩ := h'
  obtain ⟨rfl, rfl⟩ := hdecimal.unique hdecimal'
  exact hvalue.symm.trans hvalue'

theorem appendDigits_append_zeros (n k : Nat) (ds : List Char) :
    appendDigits n (ds ++ List.replicate k '0') = 10 ^ k * appendDigits n ds := by
  rw [appendDigits_append, appendDigits_zeros]

theorem appendDigits_zeros_append (k : Nat) (ds : List Char) :
    appendDigits 0 (List.replicate k '0' ++ ds) = appendDigits 0 ds := by
  rw [appendDigits_append, appendDigits_zeros, Nat.mul_zero]

theorem isDecimal_among {k : Nat} (hds : AllDigits ds) (hk : 0 < k) (hlength : k < ds.length) :
    IsDecimal (ds.take (ds.length - k) ++ '.' :: ds.drop (ds.length - k))
      (appendDigits 0 ds) (-k) := by
  have hfront : ds.take (ds.length - k) ≠ [] := by
    rw [Ne, List.take_eq_nil_iff, not_or]
    exact ⟨by omega, List.ne_nil_of_length_pos (by omega)⟩
  have hback : ds.drop (ds.length - k) ≠ [] := by
    rw [Ne, List.drop_eq_nil_iff]
    omega
  have hdecimal := isDecimal_point (fun c hc => hds c (List.mem_of_mem_take hc)) hfront
    (fun c hc => hds c (List.mem_of_mem_drop hc)) hback
  have hlast : ds.length - (ds.length - k) = k := by omega
  rwa [List.take_append_drop, List.length_drop, hlast] at hdecimal

theorem isDecimal_behind (k : Nat) (hds : AllDigits ds) (hne : ds ≠ []) :
    IsDecimal ('0' :: '.' :: (List.replicate k '0' ++ ds)) (appendDigits 0 ds)
      (-(k + ds.length : Nat)) := by
  have hdecimal := isDecimal_point (allDigits_zeros 1) (List.cons_ne_nil _ _)
    ((allDigits_zeros k).append hds) (List.append_ne_nil_of_right_ne_nil _ hne)
  rwa [appendDigits_zeros_append, appendDigits_zeros_append, List.length_append,
    List.length_replicate] at hdecimal

theorem isSpelling_positionalChars (fraction : Bool) (d : Decimal) :
    IsSpelling (d.positionalChars fraction) d := by
  have hds := allDigits_digitChars d.digits
  have hne := digitChars_ne_nil d.digits
  have hread := appendDigits_digitChars d.digits
  unfold Decimal.positionalChars
  generalize digitChars d.digits = ds at *
  by_cases he : 0 ≤ d.exponent
  · simp only [if_pos he]
    have hwhole := hds.append (allDigits_zeros d.exponent.toNat)
    have hwholeNe := List.append_ne_nil_of_left_ne_nil hne (List.replicate d.exponent.toNat '0')
    have hvalue : d.value = (10 ^ d.exponent.toNat * d.digits : Nat) := by
      rw [Decimal.value, ← Int.toNat_of_nonneg he, zpow_natCast, Int.toNat_natCast]
      push_cast
      ring
    cases fraction with
    | true =>
      refine ⟨_, _, isDecimal_point hwhole hwholeNe (allDigits_zeros 1) (List.cons_ne_nil _ _), ?_,
        ?_⟩
      · have hzero := appendDigits_append_zeros 0 1 (ds ++ List.replicate d.exponent.toNat '0')
        rw [List.replicate_one, appendDigits_append_zeros, hread] at hzero
        rw [hzero, hvalue]
        push_cast
        norm_num
        ring
      · exact min_le_right _ _
    | false =>
      refine ⟨_, _, .whole hwhole hwholeNe .none, ?_, ?_⟩
      · rw [appendDigits_append_zeros, hread, hvalue, zpow_zero, mul_one]
      · omega
  · simp only [if_neg he]
    have hexponent : d.exponent = -((-d.exponent).toNat : Int) := by omega
    generalize (-d.exponent).toNat = k at *
    by_cases hbefore : 0 < ds.length - k
    · rw [if_pos hbefore]
      refine ⟨_, _, isDecimal_among hds (by omega) (by omega), ?_, ?_⟩
      · rw [hread, Decimal.value, hexponent]
      · omega
    · rw [if_neg hbefore]
      refine ⟨_, _, isDecimal_behind (k - ds.length) hds hne, ?_, ?_⟩
      · rw [hread, Decimal.value, hexponent, Nat.sub_add_cancel (by omega)]
      · omega

theorem isExponent_intChars (plus : Bool) (n : Int) :
    IsExponent ('e' :: ((if plus && 0 < n then ['+'] else []) ++ intChars n)) n := by
  have hds := allDigits_digitChars n.natAbs
  have hne := digitChars_ne_nil n.natAbs
  have hread := appendDigits_digitChars n.natAbs
  unfold intChars
  by_cases hn : n < 0
  · have hminus := IsExponent.minus hds hne
    rw [hread] at hminus
    have heq : -(n.natAbs : Int) = n := by omega
    rw [heq] at hminus
    have hplus : (plus && decide (0 < n)) = false := by
      rw [decide_eq_false (by omega), Bool.and_false]
    rw [hplus, if_pos hn]
    exact hminus
  · have heq : (n.natAbs : Int) = n := by omega
    rw [if_neg hn]
    cases plus && decide (0 < n) with
    | true =>
      have hplus := IsExponent.plus hds hne
      rw [hread, heq] at hplus
      exact hplus
    | false =>
      have hplain := IsExponent.plain hds hne
      rw [hread, heq] at hplain
      exact hplain

theorem isSpelling_exponentChars (plus : Bool) (d : Decimal) :
    IsSpelling (d.exponentChars plus) d := by
  have hds := allDigits_digitChars d.digits
  have hread := appendDigits_digitChars d.digits
  have htail := isExponent_intChars plus d.leading
  have hleading : d.leading = (digitChars d.digits).length + d.exponent - 1 := rfl
  unfold Decimal.exponentChars
  split
  · next h => exact absurd h (digitChars_ne_nil _)
  · next c h =>
    rw [h] at hds hread hleading
    refine ⟨_, _, .whole hds (List.cons_ne_nil _ _) htail, ?_, ?_⟩
    · rw [hread, hleading, Decimal.value]
      congr 2
      simp
    · simp only [hleading, List.length_singleton]
      omega
  · next c cs hcs h =>
    rw [h] at hds hread hleading
    obtain ⟨hc, hcs'⟩ := List.forall_mem_cons.1 hds
    have hfirst : AllDigits [c] := by simpa [AllDigits] using hc
    have hdecimal := IsDecimal.fraction hfirst (List.cons_ne_nil _ _) hcs' hcs htail
    have hread : appendDigits 0 ([c] ++ cs) = d.digits := hread
    rw [hread] at hdecimal
    rw [List.length_cons] at hleading
    refine ⟨_, _, hdecimal, ?_, ?_⟩
    · rw [Decimal.value]
      congr 2
      omega
    · omega

theorem isSpelling_magnitude (n : Notation) (d : Decimal) : IsSpelling (n.magnitude d) d := by
  unfold Notation.magnitude
  split
  · exact isSpelling_positionalChars _ d
  · split
    · exact isSpelling_positionalChars _ d
    · exact isSpelling_exponentChars _ d

end RuleGraph.Number

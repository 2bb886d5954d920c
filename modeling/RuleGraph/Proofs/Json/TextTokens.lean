import RuleGraph.Json.Printer
import RuleGraph.Json.Reader
import RuleGraph.Proofs.Number.ReadBack
import RuleGraph.Proofs.Text.Bytes
/-!
# Strings and numbers in JSON text

The bytes that a string or an integer is written with are one token, and the value of this token is
the string or the integer again.
-/
namespace RuleGraph.Json
open Text

variable {c : Char} {b : UInt8} {bs written rest : Bytes} {s : String}

/-- A byte that stands for itself in a string. -/
def IsPlain (b : UInt8) : Prop :=
  b ≠ 0x22 ∧ b ≠ 0x5C ∧ 0x20 ≤ b

theorem splitString_cons (hb : IsPlain b) :
    splitString written (b :: rest) = splitString (b :: written) rest := by
  obtain ⟨hquote, hslash, hcontrol⟩ := hb
  rw [splitString.eq_def]
  split
  · simp_all
  · simp_all
  · simp_all
  · next h =>
    cases h
    rw [if_neg (not_or.2 ⟨UInt8.not_lt.2 hcontrol, hslash⟩)]

theorem splitString_append (hbs : ∀ b ∈ bs, IsPlain b) :
    splitString written (bs ++ rest) = splitString (bs.reverse ++ written) rest := by
  induction bs generalizing written with
  | nil => rfl
  | cons b bs ih =>
    obtain ⟨hb, hbs⟩ := List.forall_mem_cons.1 hbs
    rw [List.cons_append, splitString_cons hb, ih hbs, List.reverse_cons, List.append_assoc]
    rfl

theorem unescape_cons (hb : IsPlain b) : unescape (b :: rest) = (unescape rest).map (b :: ·) := by
  obtain ⟨-, hslash, -⟩ := hb
  rw [unescape.eq_def]
  split
  · simp_all
  · simp_all
  · simp_all
  · next h =>
    cases h
    rfl

theorem unescape_append (hbs : ∀ b ∈ bs, IsPlain b) :
    unescape (bs ++ rest) = (unescape rest).map (bs ++ ·) := by
  induction bs with
  | nil => simp
  | cons b bs ih =>
    obtain ⟨hb, hbs⟩ := List.forall_mem_cons.1 hbs
    rw [List.cons_append, unescape_cons hb, ih hbs, Option.map_map]
    rfl

theorem toNat_toUInt8 (hc : c.val ≤ 127) : c.toUInt8.toNat = c.toNat := by
  have h127 : (127 : UInt32).toNat = 127 := rfl
  rw [UInt32.le_iff_toNat_le] at hc
  simp only [Char.toUInt8, UInt32.toNat_toUInt8, Char.toNat]
  omega

theorem isPlain_of_mem_utf8EncodeChar (hquote : c ≠ '"') (hslash : c ≠ '\\')
    (hcontrol : 0x20 ≤ c.toNat) : ∀ b ∈ String.utf8EncodeChar c, IsPlain b := by
  intro b hb
  by_cases hc : c.val ≤ 127
  · rw [utf8EncodeChar_of_le hc, List.mem_singleton] at hb
    subst hb
    refine ⟨fun h => hquote (toUInt8_inj hc (by decide) h),
      fun h => hslash (toUInt8_inj hc (by decide) h), ?_⟩
    rw [UInt8.le_iff_toNat_le, toNat_toUInt8 hc]
    exact hcontrol
  · have hlarge := le_of_mem_utf8EncodeChar hc b hb
    have hne {d : UInt8} (hd : d < 128) : b ≠ d := by
      rintro rfl
      exact UInt8.not_le.2 hd hlarge
    exact ⟨hne (by decide), hne (by decide), UInt8.le_trans (by decide) hlarge⟩

theorem ascii_eq_bytes (s : String) : ascii s = bytes s.toList :=
  toList_toUTF8 s

theorem splitString_backslash (written : Bytes) (b : UInt8) (rest : Bytes) :
    splitString written (0x5C :: b :: rest) =
      if isByte 'u' b then
        match rest with
        | w :: x :: y :: z :: rest =>
          if isHexByte w && isHexByte x && isHexByte y && isHexByte z then
            splitString (z :: y :: x :: w :: b :: 0x5C :: written) rest
          else none
        | _ => none
      else if (ascii "\"\\/bfnrt").contains b then splitString (b :: 0x5C :: written) rest
      else none := by
  rw [splitString.eq_def]
  rfl

theorem bytes_pair (hc : c.val ≤ 127) : bytes ['\\', c] = [0x5C, c.toUInt8] := by
  rw [bytes_cons_of_le (by decide), bytes_cons_of_le hc]
  rfl

theorem ascii_letters :
    ascii "\"\\/bfnrt" = [0x22, 0x5C, 0x2F, 0x62, 0x66, 0x6E, 0x72, 0x74] :=
  ascii_eq_bytes _

/-- A character that is written as a letter behind a backslash. -/
structure EscapedBy (c : Char) (b : UInt8) : Prop where
  written : bytes (escapedChar c) = [0x5C, b]
  single : isByte 'u' b = false
  known : (ascii "\"\\/bfnrt").contains b
  read : [escapedByte b] = String.utf8EncodeChar c

theorem digitChar_hex {k : Nat} (hk : k < 16) : (Nat.digitChar k).val ≤ 127 ∧
    isHexByte (Nat.digitChar k).toUInt8 ∧ hexValue (Nat.digitChar k).toUInt8 = k := by
  revert k
  decide

/-- A control is written with its two hexadecimal digits. -/
structure ControlOf (c : Char) (k l : Nat) : Prop where
  code : c.toNat = 16 * k + l
  control : c.toNat < 0x20
  high : k < 16
  low : l < 16
  written : bytes (escapedChar c) =
    [0x5C, 0x75, 0x30, 0x30, (Nat.digitChar k).toUInt8, (Nat.digitChar l).toUInt8]

theorem bytes_control {k l : Nat} (hk : k < 16) (hl : l < 16) :
    bytes ['\\', 'u', '0', '0', Nat.digitChar k, Nat.digitChar l] =
      [0x5C, 0x75, 0x30, 0x30, (Nat.digitChar k).toUInt8, (Nat.digitChar l).toUInt8] := by
  have hzero : ('0' : Char).val ≤ 127 := by decide
  rw [bytes_cons_of_le (by decide), bytes_cons_of_le (by decide), bytes_cons_of_le hzero,
    bytes_cons_of_le hzero, bytes_cons_of_le (digitChar_hex hk).1,
    bytes_cons_of_le (digitChar_hex hl).1]
  rfl

/-- A character is written as a letter behind a backslash, as the digits of a control, or as
itself. -/
theorem escapedChar_cases (c : Char) :
    (∃ b, EscapedBy c b) ∨ (∃ k l, ControlOf c k l) ∨
      (bytes (escapedChar c) = String.utf8EncodeChar c ∧
        ∀ b ∈ String.utf8EncodeChar c, IsPlain b) := by
  by_cases hescaped : c ∈ ['"', '\\', '\x08', '\t', '\n', '\x0c', '\r']
  · left
    simp only [List.mem_cons, List.not_mem_nil, or_false] at hescaped
    rcases hescaped with rfl | rfl | rfl | rfl | rfl | rfl | rfl
    all_goals
      exact ⟨_, bytes_pair (by decide), by decide, by rw [ascii_letters]; decide, by decide⟩
  · right
    simp only [List.mem_cons, List.not_mem_nil, or_false, not_or] at hescaped
    obtain ⟨hquote, hslash, hback, htab, hline, hform, hreturn⟩ := hescaped
    have hchars : escapedChar c = if c.toNat < 0x20 then
        ['\\', 'u', '0', '0', Nat.digitChar (c.toNat / 16), Nat.digitChar (c.toNat % 16)]
      else [c] := by
      unfold escapedChar
      split <;> first | contradiction | rfl
    by_cases hcontrol : c.toNat < 0x20
    · rw [if_pos hcontrol] at hchars
      have hhigh : c.toNat / 16 < 16 := by omega
      have hlow : c.toNat % 16 < 16 := by omega
      exact .inl ⟨_, _, (Nat.div_add_mod _ 16).symm, hcontrol, hhigh, hlow,
        hchars ▸ bytes_control hhigh hlow⟩
    · rw [if_neg hcontrol] at hchars
      exact .inr ⟨hchars ▸ List.append_nil _,
        isPlain_of_mem_utf8EncodeChar hquote hslash (Nat.not_lt.1 hcontrol)⟩

theorem splitString_escapedChar (c : Char) :
    splitString written (bytes (escapedChar c) ++ rest) =
      splitString ((bytes (escapedChar c)).reverse ++ written) rest := by
  obtain ⟨b, hb⟩ | ⟨k, l, hcontrol⟩ | ⟨hbytes, hplain⟩ := escapedChar_cases c
  · rw [hb.written]
    simp only [List.cons_append, List.nil_append]
    rw [splitString_backslash, hb.single, if_neg Bool.false_ne_true, if_pos hb.known]
    rfl
  · rw [hcontrol.written]
    have hzero : isHexByte 0x30 := by decide
    have hu : isByte 'u' 0x75 := by decide
    simp only [List.cons_append, List.nil_append]
    rw [splitString_backslash, if_pos hu]
    dsimp only
    have hhigh := (digitChar_hex hcontrol.high).2.1
    have hlow := (digitChar_hex hcontrol.low).2.1
    rw [if_pos (by simp [hzero, hhigh, hlow])]
    rfl
  · rw [hbytes]
    exact splitString_append hplain

theorem unescape_codeUnit {w x y z : UInt8} (h : codeUnit w x y z < 0xD800) :
    unescape (0x5C :: 0x75 :: w :: x :: y :: z :: rest) =
      (unescape rest).map (charBytes (codeUnit w x y z) ++ ·) := by
  rw [unescape.eq_def]
  exact if_pos (.inl h)

theorem unescape_escapedChar (c : Char) :
    unescape (bytes (escapedChar c) ++ rest) =
      (unescape rest).map (String.utf8EncodeChar c ++ ·) := by
  obtain ⟨b, hb⟩ | ⟨k, l, hcontrol⟩ | ⟨hbytes, hplain⟩ := escapedChar_cases c
  · rw [hb.written, ← hb.read]
    refine unescape.eq_4 _ _ fun _ _ _ _ _ hu _ => ?_
    have hsingle := hb.single
    rw [hu] at hsingle
    cases hsingle
  · have hcode : codeUnit 0x30 0x30 (Nat.digitChar k).toUInt8 (Nat.digitChar l).toUInt8 =
        c.toNat := by
      have hzero : hexValue 0x30 = 0 := rfl
      rw [codeUnit, hzero, (digitChar_hex hcontrol.high).2.2, (digitChar_hex hcontrol.low).2.2,
        hcontrol.code]
      omega
    have hbytes : charBytes c.toNat = String.utf8EncodeChar c := by
      rw [charBytes, ascii_eq_bytes, Char.ofNat_toNat, String.toList_singleton]
      exact List.append_nil _
    have hsmall := hcontrol.control
    rw [hcontrol.written]
    simp only [List.cons_append, List.nil_append]
    rw [unescape_codeUnit (by omega), hcode, hbytes]
  · rw [hbytes]
    exact unescape_append hplain

/-- The bytes of a string between its quotes. -/
def stringBytes (s : String) : Bytes :=
  bytes (s.toList.flatMap escapedChar)

theorem splitString_stringBytes (s : String) (rest : Bytes) :
    splitString [] (stringBytes s ++ 0x22 :: rest) = some (stringBytes s, rest) := by
  suffices ∀ (cs : List Char) (written : Bytes),
      splitString written (bytes (cs.flatMap escapedChar) ++ 0x22 :: rest) =
        some (written.reverse ++ bytes (cs.flatMap escapedChar), rest) from this s.toList []
  intro cs
  induction cs with
  | nil => exact fun written => congrArg (fun front => some (front, rest)) (List.append_nil _).symm
  | cons c cs ih =>
    intro written
    rw [List.flatMap_cons, bytes_append, List.append_assoc, splitString_escapedChar, ih,
      List.reverse_append, List.reverse_reverse, List.append_assoc]

theorem stringOf_stringBytes (s : String) : stringOf (stringBytes s) = some s := by
  have hunescape (cs : List Char) :
      unescape (bytes (cs.flatMap escapedChar)) = some (bytes cs) := by
    induction cs with
    | nil => rfl
    | cons c cs ih =>
      rw [List.flatMap_cons, bytes_append, unescape_escapedChar, ih]
      rfl
  rw [stringOf, stringBytes, hunescape]
  exact (fromUTF8?_bytes s.toList).trans (by rw [String.ofList_toList])

theorem toNat_of_isNumberByte (hb : isNumberByte b) : 48 ≤ b.toNat ∧ b.toNat ≤ 57 ∨
    b.toNat = 45 ∨ b.toNat = 43 ∨ b.toNat = 46 ∨ b.toNat = 101 ∨ b.toNat = 69 := by
  simpa [isNumberByte, isDigitByte, isByte, or_assoc] using hb

theorem ne_of_isNumberByte (hb : isNumberByte b) :
    punctuation b = none ∧ (b == 0x22) = false ∧ isByte 'n' b = false ∧ isByte 't' b = false ∧
      isByte 'f' b = false ∧ isBlankByte b = false := by
  have hrange := toNat_of_isNumberByte hb
  have hne {d : UInt8} (hd : b.toNat ≠ d.toNat) : (b == d) = false :=
    beq_eq_false_iff_ne.2 fun heq => hd (heq ▸ rfl)
  have hother {c : Char} (hc : b.toNat ≠ c.toNat) : isByte c b = false :=
    beq_eq_false_iff_ne.2 hc
  refine ⟨?_, hne ?_, hother ?_, hother ?_, hother ?_, ?_⟩
  · simp only [punctuation, Char.reduceToNat, isByte, beq_iff_eq]
    repeat rw [if_neg (by omega)]
  · change b.toNat ≠ 34
    omega
  · change b.toNat ≠ 110
    omega
  · change b.toNat ≠ 116
    omega
  · change b.toNat ≠ 102
    omega
  · have hspace : (b == 0x20) = false := hne (by change b.toNat ≠ 32; omega)
    have htab : (b == 0x09) = false := hne (by change b.toNat ≠ 9; omega)
    have hline : (b == 0x0A) = false := hne (by change b.toNat ≠ 10; omega)
    have hreturn : (b == 0x0D) = false := hne (by change b.toNat ≠ 13; omega)
    rw [isBlankByte, hspace, htab, hline, hreturn]
    rfl

theorem nextToken_of_isNumberByte (hb : isNumberByte b) :
    nextToken b rest = (splitNumber (b :: rest.takeWhile isNumberByte)).map fun _ =>
      (.number (b :: rest.takeWhile isNumberByte), rest.dropWhile isNumberByte) := by
  obtain ⟨hpunctuation, hquote, hn, ht, hf, -⟩ := ne_of_isNumberByte hb
  simp [nextToken, hpunctuation, hquote, hn, ht, hf]

/-- The bytes of digits, signs, points and letters of exponents. -/
def IsNumeral (bs : Bytes) : Prop :=
  bs ≠ [] ∧ ∀ b ∈ bs, isNumberByte b

/-- A numeral ends in front of the bytes. -/
def EndsNumeral (rest : Bytes) : Prop :=
  rest.takeWhile isNumberByte = []

theorem tokens_cons {t : Token} (hb : isBlankByte b = false)
    (h : nextToken b bs = some (t, rest)) : tokens (b :: bs) = (tokens rest).map (t :: ·) := by
  rw [tokens, if_neg (by rw [hb]; exact Bool.false_ne_true)]
  split
  · next hnone => cases hnone.symm.trans h
  · next hsome =>
    cases hsome.symm.trans h
    rfl

theorem tokens_numeral {j : Json} (hbs : IsNumeral bs) (hread : numberOf bs = some j)
    (hrest : EndsNumeral rest) : tokens (bs ++ rest) = (tokens rest).map (.number bs :: ·) := by
  obtain ⟨hne, hall⟩ := hbs
  obtain ⟨b, bs, rfl⟩ := List.exists_cons_of_ne_nil hne
  obtain ⟨hb, hbs⟩ := List.forall_mem_cons.1 hall
  have htake : (bs ++ rest).takeWhile isNumberByte = bs := by
    rw [List.takeWhile_append_of_pos hbs, hrest, List.append_nil]
  have hdrop : (bs ++ rest).dropWhile isNumberByte = rest := by
    have hsplit := List.takeWhile_append_dropWhile (p := isNumberByte) (l := bs ++ rest)
    rw [htake] at hsplit
    exact List.append_cancel_left hsplit
  obtain ⟨w, hw, -⟩ := Option.bind_eq_some_iff.1 hread
  obtain ⟨-, -, -, -, -, hblank⟩ := ne_of_isNumberByte hb
  rw [List.cons_append]
  refine tokens_cons hblank ?_
  rw [nextToken_of_isNumberByte hb, htake, hdrop, hw]
  rfl

/-- A character of a number, which is one byte. -/
def IsNumberChar (c : Char) : Prop :=
  c.val ≤ 127 ∧ isNumberByte c.toUInt8

theorem isDigitByte_of_isDigit (hc : c.isDigit) : c.val ≤ 127 ∧ isDigitByte c.toUInt8 ∧
    digitOf c.toUInt8 = Number.digitValue c := by
  have hrange : 48 ≤ c.toNat ∧ c.toNat ≤ 57 := by
    rw [Char.isDigit, Bool.and_eq_true, decide_eq_true_eq, decide_eq_true_eq] at hc
    exact ⟨UInt32.le_iff_toNat_le.1 hc.1, UInt32.le_iff_toNat_le.1 hc.2⟩
  have hsmall : c.val ≤ 127 := by
    rw [UInt32.le_iff_toNat_le]
    exact Nat.le_trans hrange.2 (by decide)
  have hbyte := toNat_toUInt8 hsmall
  refine ⟨hsmall, ?_, ?_⟩
  · simp only [isDigitByte, hbyte, Bool.and_eq_true, decide_eq_true_eq]
    exact hrange
  · rw [digitOf, hbyte]
    rfl

theorem isNumberChar_of_isDigit (hc : c.isDigit) : IsNumberChar c := by
  obtain ⟨hsmall, hdigit, -⟩ := isDigitByte_of_isDigit hc
  exact ⟨hsmall, by rw [isNumberByte, hdigit]; rfl⟩

theorem isNumeral_bytes {cs : List Char} (hne : cs ≠ []) (hcs : ∀ c ∈ cs, IsNumberChar c) :
    IsNumeral (bytes cs) := by
  constructor
  · obtain ⟨c, cs, rfl⟩ := List.exists_cons_of_ne_nil hne
    rw [bytes_cons_of_le (hcs c List.mem_cons_self).1]
    exact List.cons_ne_nil _ _
  · intro b hb
    obtain ⟨c, hc, hb⟩ := List.mem_flatMap.1 hb
    rw [utf8EncodeChar_of_le (hcs c hc).1, List.mem_singleton] at hb
    exact hb ▸ (hcs c hc).2

open Number in
theorem isNumberChar_of_isDecimal {cs : List Char} {m : Nat} {e : Int} (h : IsDecimal cs m e) :
    cs ≠ [] ∧ ∀ c ∈ cs, IsNumberChar c := by
  have hdigits {ds : List Char} (hds : AllDigits ds) : ∀ c ∈ ds, IsNumberChar c :=
    fun c hc => isNumberChar_of_isDigit (hds c hc)
  have hmark (c : Char) (hc : c ∈ ['.', 'e', '+', '-']) : IsNumberChar c := by
    simp only [List.mem_cons, List.not_mem_nil, or_false] at hc
    rcases hc with rfl | rfl | rfl | rfl <;> exact ⟨by decide, by decide⟩
  have htail {tail : List Char} {e : Int} (htail : IsExponent tail e) :
      ∀ c ∈ tail, IsNumberChar c := by
    cases htail with
    | none => exact nofun
    | plain hds =>
      exact List.forall_mem_cons.2 ⟨hmark 'e' (by decide), hdigits hds⟩
    | plus hds =>
      exact List.forall_mem_cons.2 ⟨hmark 'e' (by decide),
        List.forall_mem_cons.2 ⟨hmark '+' (by decide), hdigits hds⟩⟩
    | minus hds =>
      exact List.forall_mem_cons.2 ⟨hmark 'e' (by decide),
        List.forall_mem_cons.2 ⟨hmark '-' (by decide), hdigits hds⟩⟩
  cases h with
  | whole hds hne hexponent =>
    exact ⟨by simp [hne], List.forall_mem_append.2 ⟨hdigits hds, htail hexponent⟩⟩
  | fraction hds hne hfs hfsNe hexponent =>
    exact ⟨by simp, List.forall_mem_append.2 ⟨hdigits hds, List.forall_mem_cons.2
      ⟨hmark '.' (by decide), List.forall_mem_append.2 ⟨hdigits hfs, htail hexponent⟩⟩⟩⟩

theorem isNumeral_negative {cs : List Char} (h : ∀ c ∈ cs, IsNumberChar c) :
    IsNumeral (bytes ('-' :: cs)) :=
  isNumeral_bytes (List.cons_ne_nil _ _)
    (List.forall_mem_cons.2 ⟨⟨by decide, by decide⟩, h⟩)

theorem isNumeral_decimalChars {x : Float} (hx : x.isFinite) :
    IsNumeral (bytes (decimalChars x)) := by
  obtain ⟨m, e, hdecimal, -, -⟩ :=
    Number.isSpelling_magnitude decimalNotation (Number.shortest decimalNotation.tie x)
  obtain ⟨hne, hall⟩ := isNumberChar_of_isDecimal hdecimal
  rw [decimalChars, if_pos hx, Number.write_of_isFinite decimalNotation hx]
  split
  · exact isNumeral_negative hall
  · exact isNumeral_bytes hne hall

theorem isNumeral_intChars (n : Int) : IsNumeral (bytes (Number.intChars n)) := by
  obtain ⟨hne, hall⟩ := isNumberChar_of_isDecimal (Number.isDecimal_digitChars n.natAbs)
  rw [Number.intChars]
  split
  · exact isNumeral_negative hall
  · exact isNumeral_bytes hne hall

theorem bytes_digits {ds : List Char} (hds : Number.AllDigits ds) :
    bytes ds = ds.map Char.toUInt8 := by
  induction ds with
  | nil => rfl
  | cons d ds ih =>
    obtain ⟨hd, hds⟩ := List.forall_mem_cons.1 hds
    rw [bytes_cons_of_le (isDigitByte_of_isDigit hd).1, ih hds, List.map_cons]

theorem splitDigits_bytes {ds : List Char} (hds : Number.AllDigits ds) (hne : ds ≠ []) :
    splitDigits (bytes ds) = some (bytes ds, []) := by
  have hall : ∀ b ∈ bytes ds, isDigitByte b := by
    rw [bytes_digits hds]
    exact List.forall_mem_map.2 fun d hd => (isDigitByte_of_isDigit (hds d hd)).2.1
  have hempty : (bytes ds).isEmpty = false := by
    rw [bytes_digits hds, List.isEmpty_map]
    exact List.isEmpty_eq_false_iff.2 hne
  rw [splitDigits, List.takeWhile_eq_self_iff.2 hall, List.dropWhile_eq_nil_iff.2 hall, hempty]
  rfl

theorem le_appendDigits (n : Nat) (ds : List Char) : n ≤ Number.appendDigits n ds := by
  induction ds generalizing n with
  | nil => exact Nat.le_refl n
  | cons d ds ih =>
    have hmore := ih (10 * n + Number.digitValue d)
    change n ≤ Number.appendDigits (10 * n + Number.digitValue d) ds
    omega

theorem appendFitting_bytes {ds : List Char} (hds : Number.AllDigits ds) {n : Nat}
    (h : Number.appendDigits n ds < Nat.pow 2 64) :
    appendFitting n (bytes ds) = (Number.appendDigits n ds, 0) := by
  rw [bytes_digits hds]
  induction ds generalizing n with
  | nil => rfl
  | cons d ds ih =>
    obtain ⟨hd, hds⟩ := List.forall_mem_cons.1 hds
    have hle := le_appendDigits (10 * n + Number.digitValue d) ds
    rw [List.map_cons, appendFitting, (isDigitByte_of_isDigit hd).2.2,
      if_pos (Nat.lt_of_le_of_lt hle h)]
    exact ih hds h

theorem head?_digitChars {n : Nat} (hn : 0 < n) : (Number.digitChars n).head? ≠ some '0' := by
  induction n using Nat.strongRecOn with
  | ind n ih =>
    rw [Number.digitChars]
    by_cases hsmall : n < 10
    · rw [Nat.toDigits_of_lt_base hsmall]
      intro hzero
      have hdigit : ∀ k < 10, Nat.digitChar k = '0' → k = 0 := by decide
      have := hdigit n hsmall (Option.some.inj hzero)
      omega
    · rw [Nat.toDigits_of_base_le (by decide) (Nat.not_lt.1 hsmall), List.head?_append]
      have hrest := ih (n / 10) (by omega) (by omega)
      cases hhead : (Nat.toDigits 10 (n / 10)).head? with
      | none => exact absurd (List.head?_eq_none_iff.1 hhead) Nat.toDigits_ne_nil
      | some d => rwa [Number.digitChars, hhead] at hrest

theorem splitSign_digits {ds : List Char} (hds : Number.AllDigits ds) :
    splitSign (bytes ds) = (false, bytes ds) := by
  cases ds with
  | nil => rfl
  | cons d ds =>
    have hd := (isDigitByte_of_isDigit (hds d List.mem_cons_self)).2.1
    rw [bytes_digits hds, List.map_cons]
    unfold splitSign
    split
    · next heq =>
      rw [List.cons.injEq] at heq
      rw [heq.1] at hd
      cases hd
    · rfl

theorem splitNumber_digits {n : Nat} {bs : Bytes} {negative : Bool}
    (hsign : splitSign bs = (negative, bytes (Number.digitChars n))) :
    splitNumber bs = some ⟨negative, bytes (Number.digitChars n), [], false, false, []⟩ := by
  have hds := Number.allDigits_digitChars n
  have hne := Number.digitChars_ne_nil n
  have hzero : ¬(1 < (bytes (Number.digitChars n)).length ∧
      (bytes (Number.digitChars n)).head? = some 0x30) := by
    rintro ⟨hlength, hhead⟩
    rw [bytes_digits hds, List.length_map] at hlength
    rw [bytes_digits hds, List.head?_map] at hhead
    obtain ⟨d, hd, hbyte⟩ := Option.map_eq_some_iff.1 hhead
    have hdigit := isDigitByte_of_isDigit (hds d (List.mem_of_mem_head? hd))
    obtain rfl : d = '0' := toUInt8_inj hdigit.1 (by decide) hbyte
    cases n with
    | zero => exact absurd hlength (by decide)
    | succ n => exact head?_digitChars (Nat.succ_pos n) hd
  simp [splitNumber, hsign, splitDigits_bytes hds hne, hzero]

theorem toJson_digits {n : Nat} {negative : Bool} (hn : n < Nat.pow 2 64)
    (hrange : negative → n ≠ 0 ∧ n ≤ Nat.pow 2 63) :
    (⟨negative, bytes (Number.digitChars n), [], false, false, []⟩ : WrittenNumber).toJson =
      some (.integer (if negative then -(n : Int) else n)) := by
  have hfitting := appendFitting_bytes (Number.allDigits_digitChars n) (n := 0)
    (by rwa [Number.appendDigits_digitChars])
  rw [Number.appendDigits_digitChars] at hfitting
  have hexact : (if negative then n != 0 && decide (n ≤ Nat.pow 2 63) else true) = true := by
    cases negative with
    | false => rfl
    | true => simpa using hrange rfl
  simp only [WrittenNumber.toJson, hfitting, hexact]
  rfl

theorem numberOf_intChars {n : Int} (hlow : -2 ^ 63 ≤ n) (hhigh : n < 2 ^ 64) :
    numberOf (bytes (Number.intChars n)) = some (.integer n) := by
  rw [numberOf, Number.intChars]
  by_cases hn : n < 0
  · have hsign : splitSign (bytes ('-' :: Number.digitChars n.natAbs)) =
        (true, bytes (Number.digitChars n.natAbs)) := by
      rw [bytes_cons_of_le (by decide)]
      rfl
    rw [if_pos hn, splitNumber_digits hsign, Option.bind_some,
      toJson_digits (by rw [Nat.pow_eq]; omega) fun _ => by rw [Nat.pow_eq]; omega, if_pos rfl]
    congr 2
    omega
  · rw [if_neg hn, splitNumber_digits (splitSign_digits (Number.allDigits_digitChars n.natAbs)),
      Option.bind_some, toJson_digits (by rw [Nat.pow_eq]; omega) (by simp),
      if_neg Bool.false_ne_true]
    congr 2
    omega

end RuleGraph.Json

import RuleGraph.Expr.Lexer
import RuleGraph.Proofs.Results
/-!
# Where tokens end

Which lexemes a text has does not depend on the position where it begins, and a token is the same
in front of every text that it cannot go on with.
-/
namespace RuleGraph

/-- Whether a lexeme is nothing but a mark or a word of the language. -/
def Lexeme.isMark : Lexeme → Bool
  | .number _ | .string _ | .identifier _ | .eof => false
  | _ => true

theorem Lexeme.beq_mark {t : Lexeme} (ht : t.isMark) (u : Lexeme) : (u == t) = true ↔ u = t := by
  constructor
  · intro h
    cases t with
    | number x | string s | identifier name | eof => cases ht
    | _ => cases u <;> first | rfl | cases h
  · rintro rfl
    cases u with
    | number x | string s | identifier name | eof => cases ht
    | _ => rfl

namespace Lexer
open Text

/-- The characters, apart from those of names, that can continue a token. -/
def continuing : List Char :=
  ['.', '?', '=', '&', '|', '+', '-']

/-- The text is empty or begins with a character that continues no token. -/
structure EndsTokens (rest : List Char) : Prop where
  isNameChar : ∀ c ∈ rest.head?, isNameChar c = false
  notMem : ∀ c ∈ rest.head?, c ∉ continuing

variable {cs rest : List Char} {c : Char} {t : Lexeme} {n : Nat}

theorem endsTokens_nil : EndsTokens [] :=
  ⟨nofun, nofun⟩

theorem endsTokens_cons (hname : isNameChar c = false) (hmem : c ∉ continuing) :
    EndsTokens (c :: rest) :=
  ⟨by rintro _ ⟨⟩; exact hname, by rintro _ ⟨⟩; exact hmem⟩

theorem isNameChar_of_isDigit (h : c.isDigit) : isNameChar c := by
  simp [isNameChar, isLetterOrNumeral, Char.isAlphanum, h]

theorem EndsTokens.isDigit (h : EndsTokens rest) : ∀ c ∈ rest.head?, c.isDigit = false := by
  intro c hc
  rw [← Bool.not_eq_true]
  intro hdigit
  have hname := h.isNameChar c hc
  rw [isNameChar_of_isDigit hdigit] at hname
  cases hname

theorem EndsTokens.ne_of_isNameChar (h : EndsTokens (c :: rest)) {d : Char}
    (hd : Lexer.isNameChar d) :
    c ≠ d := by
  rintro rfl
  rw [h.isNameChar c rfl] at hd
  cases hd

theorem EndsTokens.ne_of_mem (h : EndsTokens (c :: rest)) {d : Char} (hd : d ∈ continuing) :
    c ≠ d := by
  rintro rfl
  exact h.notMem c rfl hd

theorem takeWhile_append_of_head? {p : Char → Bool} (h : ∀ c ∈ rest.head?, p c = false) :
    (cs ++ rest).takeWhile p = cs.takeWhile p := by
  induction cs with
  | nil =>
    cases rest with
    | nil => rfl
    | cons c rest => simp [h c rfl]
  | cons c cs ih => simp [List.takeWhile_cons, ih]

theorem takeWhile_of_append {p : Char → Bool}
    (h : ((cs ++ rest).takeWhile p).length ≤ cs.length) :
    cs.takeWhile p = (cs ++ rest).takeWhile p := by
  induction cs with
  | nil => exact (List.length_eq_zero_iff.1 (Nat.le_zero.1 h)).symm
  | cons c cs ih =>
    rw [List.cons_append, List.takeWhile_cons] at h ⊢
    rw [List.takeWhile_cons]
    by_cases hc : p c
    · rw [if_pos hc] at h ⊢
      rw [if_pos hc, ih (Nat.le_of_succ_le_succ h)]
    · rw [if_neg hc, if_neg hc]

theorem startsWithDigit_append (h : EndsTokens rest) :
    startsWithDigit (cs ++ rest) = startsWithDigit cs := by
  cases cs with
  | nil =>
    cases rest with
    | nil => rfl
    | cons c rest => exact h.isDigit c rfl
  | cons c cs => rfl

theorem digitsLength_append (h : EndsTokens rest) :
    digitsLength (cs ++ rest) = digitsLength cs := by
  induction cs with
  | nil =>
    cases rest with
    | nil => rfl
    | cons c rest =>
      have hdigit := h.isDigit c rfl
      have hdot : c ≠ '.' := h.ne_of_mem (by simp [continuing])
      have hscore : c ≠ '_' := h.ne_of_isNameChar (by simp [Lexer.isNameChar])
      simp [digitsLength, hdigit, hdot, hscore]
  | cons c cs ih => simp only [List.cons_append, digitsLength, ih, startsWithDigit_append h]

theorem digitsLength_le (cs : List Char) : digitsLength cs ≤ cs.length := by
  induction cs with
  | nil => exact Nat.le_refl 0
  | cons c cs ih =>
    rw [digitsLength]
    split
    · simpa using ih
    · exact Nat.zero_le _

def signLength : List Char → Nat
  | '+' :: _ | '-' :: _ => 1
  | _ => 0

theorem signLength_le (cs : List Char) : signLength cs ≤ cs.length := by
  unfold signLength
  split <;> simp

theorem signLength_append (h : EndsTokens rest) : signLength (cs ++ rest) = signLength cs := by
  cases cs with
  | nil =>
    cases rest with
    | nil => rfl
    | cons c rest =>
      have hplus : c ≠ '+' := h.ne_of_mem (by simp [continuing])
      have hminus : c ≠ '-' := h.ne_of_mem (by simp [continuing])
      simp [signLength, hplus, hminus]
  | cons c cs =>
    simp only [signLength, List.cons_append]
    split <;> simp_all

theorem exponentLength_cons (c : Char) (cs : List Char) :
    exponentLength (c :: cs) =
      if c == 'e' || c == 'E' then
        if ((cs.drop (signLength cs)).takeWhile Char.isDigit).length = 0 then 0
        else 1 + signLength cs + ((cs.drop (signLength cs)).takeWhile Char.isDigit).length
      else 0 := by
  unfold exponentLength signLength
  rfl

theorem exponentLength_append (h : EndsTokens rest) :
    exponentLength (cs ++ rest) = exponentLength cs := by
  cases cs with
  | nil =>
    cases rest with
    | nil => rfl
    | cons c rest =>
      have he : c ≠ 'e' := h.ne_of_isNameChar (by decide +kernel)
      have hE : c ≠ 'E' := h.ne_of_isNameChar (by decide +kernel)
      simp [exponentLength, he, hE]
  | cons c cs =>
    have hdrop : (cs ++ rest).drop (signLength cs) = cs.drop (signLength cs) ++ rest :=
      List.drop_append_of_le_length (signLength_le cs)
    simp only [List.cons_append, exponentLength_cons, signLength_append h, hdrop,
      takeWhile_append_of_head? h.isDigit]

theorem exponentLength_le (cs : List Char) : exponentLength cs ≤ cs.length := by
  cases cs with
  | nil => exact Nat.le_refl 0
  | cons c cs =>
    have hsign := signLength_le cs
    have hdigits := (List.takeWhile_sublist (l := cs.drop (signLength cs)) Char.isDigit).length_le
    rw [List.length_drop] at hdigits
    rw [exponentLength_cons, List.length_cons]
    split
    · split <;> omega
    · exact Nat.zero_le _

theorem numberLength_le (cs : List Char) : numberLength cs ≤ cs.length := by
  have hdigits := digitsLength_le cs
  have hexponent := exponentLength_le (cs.drop (digitsLength cs))
  rw [List.length_drop] at hexponent
  rw [numberLength]
  omega

theorem numberLength_append (h : EndsTokens rest) :
    numberLength (cs ++ rest) = numberLength cs := by
  have hdrop : (cs ++ rest).drop (digitsLength cs) = cs.drop (digitsLength cs) ++ rest :=
    List.drop_append_of_le_length (digitsLength_le cs)
  simp only [numberLength, digitsLength_append h, hdrop, exponentLength_append h]

theorem startsWithDigit_of_append (h : digitsLength (cs ++ rest) ≤ cs.length) :
    startsWithDigit cs = startsWithDigit (cs ++ rest) := by
  cases cs with
  | cons c cs => rfl
  | nil =>
    cases rest with
    | nil => rfl
    | cons d rest =>
      have hnone : digitsLength (d :: rest) = 0 := Nat.le_zero.1 h
      cases hd : d.isDigit with
      | false => exact hd.symm
      | true => simp [digitsLength, hd] at hnone

theorem digitsLength_of_append (h : digitsLength (cs ++ rest) ≤ cs.length) :
    digitsLength cs = digitsLength (cs ++ rest) := by
  induction cs with
  | nil => exact (Nat.le_zero.1 h).symm
  | cons c cs ih =>
    rw [List.cons_append, digitsLength] at h ⊢
    rw [digitsLength]
    by_cases hgo : c.isDigit || c == '_' || (c == '.' && startsWithDigit (cs ++ rest))
    · rw [if_pos hgo] at h ⊢
      have hrest : digitsLength (cs ++ rest) ≤ cs.length := Nat.le_of_succ_le_succ h
      rw [startsWithDigit_of_append hrest, if_pos hgo, ih hrest]
    · rw [if_neg hgo]
      refine if_neg fun hstarts => hgo ?_
      cases cs with
      | nil => simp_all [startsWithDigit]
      | cons d cs => exact hstarts

/-- An exponent that does not go beyond a part of the text is that of the part. If there is one,
then its sign and its first digit are in the part. -/
theorem exponentLength_of_append (h : exponentLength (cs ++ rest) ≤ cs.length) :
    exponentLength cs = exponentLength (cs ++ rest) := by
  cases cs with
  | nil => exact (Nat.le_zero.1 h).symm
  | cons c cs =>
    rw [List.cons_append, exponentLength_cons] at h ⊢
    rw [exponentLength_cons]
    by_cases hc : c == 'e' || c == 'E'
    · rw [if_pos hc] at h ⊢
      rw [if_pos hc]
      cases cs with
      | nil =>
        rw [List.nil_append, List.length_singleton] at h
        rw [List.nil_append, if_pos (by rfl)]
        split
        · rfl
        · next hsome =>
          rw [if_neg hsome] at h
          omega
      | cons d cs =>
        have hsign : signLength (d :: cs ++ rest) = signLength (d :: cs) := by
          simp only [signLength, List.cons_append]
          split <;> simp_all
        have hle := signLength_le (d :: cs)
        have hdrop : (d :: cs ++ rest).drop (signLength (d :: cs)) =
            (d :: cs).drop (signLength (d :: cs)) ++ rest :=
          List.drop_append_of_le_length hle
        rw [hsign, hdrop] at h ⊢
        have hdigits : (((d :: cs).drop (signLength (d :: cs)) ++ rest).takeWhile
            Char.isDigit).length ≤ ((d :: cs).drop (signLength (d :: cs))).length := by
          rw [List.length_drop]
          rw [List.length_cons (a := c)] at h
          split at h <;> omega
        rw [takeWhile_of_append hdigits]
    · rw [if_neg hc, if_neg hc]

theorem numberLength_of_append (h : numberLength (cs ++ rest) ≤ cs.length) :
    numberLength cs = numberLength (cs ++ rest) := by
  rw [numberLength] at h
  have hdigits : digitsLength cs = digitsLength (cs ++ rest) :=
    digitsLength_of_append (Nat.le_of_add_right_le h)
  have hdrop : (cs ++ rest).drop (digitsLength cs) = cs.drop (digitsLength cs) ++ rest :=
    List.drop_append_of_le_length (digitsLength_le cs)
  rw [← hdigits, hdrop] at h
  have hle : exponentLength (cs.drop (digitsLength cs) ++ rest) ≤
      (cs.drop (digitsLength cs)).length := by
    rw [List.length_drop]
    omega
  rw [numberLength, numberLength, ← hdigits, hdrop, exponentLength_of_append hle]

variable {quote : Char} {value : List Char}

theorem StringBody.push_eq_closed {body : StringBody} {k : Nat} :
    body.push c k = .closed value n ↔
      ∃ value' n', body = .closed value' n' ∧ c :: value' = value ∧ n' + k = n := by
  constructor
  · intro h
    cases body with
    | closed value' n' =>
      cases h
      exact ⟨value', n', rfl, rfl, rfl⟩
    | _ => cases h
  · rintro ⟨value', n', rfl, rfl, rfl⟩
    rfl

theorem stringBody_cons (hc : c ≠ '\\') :
    stringBody quote (c :: cs) =
      if c == quote then .closed [] 1 else (stringBody quote cs).push c 1 :=
  stringBody.eq_4 quote c cs (fun h _ => hc h) fun _ _ h _ => hc h

theorem one_le_of_stringBody (h : stringBody quote cs = .closed value n) : 1 ≤ n := by
  unfold stringBody at h
  split at h
  · cases h
  · cases h
  · obtain ⟨_, _, -, -, rfl⟩ := StringBody.push_eq_closed.1 h
    omega
  · split at h
    · cases h
      exact Nat.le_refl 1
    · obtain ⟨_, _, -, -, rfl⟩ := StringBody.push_eq_closed.1 h
      omega

/-- A string is closed in a text exactly if it is closed so early in front of more. -/
theorem stringBody_append :
    stringBody quote (cs ++ rest) = .closed value n ∧ n ≤ cs.length ↔
      stringBody quote cs = .closed value n := by
  induction cs using stringBody.induct quote generalizing value n with
  | case1 =>
    refine ⟨fun ⟨h, hn⟩ => ?_, nofun⟩
    have hlength := one_le_of_stringBody h
    rw [List.length_nil] at hn
    omega
  | case2 =>
    refine ⟨fun ⟨h, hn⟩ => ?_, nofun⟩
    cases rest with
    | nil => cases h
    | cons c rest =>
      obtain ⟨_, _, hbody, -, rfl⟩ := StringBody.push_eq_closed.1 h
      have hlength := one_le_of_stringBody hbody
      rw [List.length_singleton] at hn
      omega
  | case3 c cs ih =>
    simp only [List.cons_append, stringBody, StringBody.push_eq_closed, List.length_cons, ← ih]
    constructor
    · rintro ⟨⟨value', n', h, hvalue, rfl⟩, hn⟩
      exact ⟨value', n', ⟨h, by omega⟩, hvalue, rfl⟩
    · rintro ⟨value', n', ⟨h, hn⟩, hvalue, rfl⟩
      exact ⟨⟨value', n', h, hvalue, rfl⟩, by omega⟩
  | case4 c cs hend hmore hquote =>
    have hc : c ≠ '\\' := fun h => by cases cs <;> simp_all
    rw [List.cons_append, stringBody_cons hc, stringBody_cons hc, if_pos hquote, if_pos hquote]
    refine ⟨And.left, fun h => ⟨h, ?_⟩⟩
    cases h
    exact Nat.succ_le_succ (Nat.zero_le _)
  | case5 c cs hend hmore hquote ih =>
    have hc : c ≠ '\\' := fun h => by cases cs <;> simp_all
    rw [List.cons_append, stringBody_cons hc, stringBody_cons hc, if_neg hquote, if_neg hquote]
    simp only [StringBody.push_eq_closed, List.length_cons, ← ih]
    constructor
    · rintro ⟨⟨value', n', h, hvalue, rfl⟩, hn⟩
      exact ⟨value', n', ⟨h, by omega⟩, hvalue, rfl⟩
    · rintro ⟨value', n', ⟨h, hn⟩, hvalue, rfl⟩
      exact ⟨⟨value', n', h, hvalue, rfl⟩, by omega⟩

theorem symbol_eq_none {next : Option Char} (h : ∀ d ∈ next, d ∉ continuing) :
    symbol c next = symbol c none := by
  simp only [continuing, List.mem_cons, not_or] at h
  fun_cases symbol c next <;> simp_all [symbol]

theorem symbol_cases {next : Option Char} (h : symbol c next = .ok (t, n)) :
    t.isMark ∧ (n = 0 ∨ n = 1 ∧ ∃ d ∈ next, d ∈ continuing) ∧
      (t = .closeBrace → c = '\x7d') := by
  revert h
  fun_cases symbol c next <;> rintro ⟨⟩ <;> simp [Lexeme.isMark, continuing]

theorem isMark_of_symbol {next : Option Char} (h : symbol c next = .ok (t, n)) : t.isMark :=
  (symbol_cases h).1

theorem length_of_symbol {next : Option Char} (h : symbol c next = .ok (t, n)) :
    n = 0 ∨ n = 1 ∧ ∃ d ∈ next, d ∈ continuing :=
  (symbol_cases h).2.1

theorem symbol_eq_closeBrace {next : Option Char} (h : symbol c next = .ok (.closeBrace, n)) :
    c = '\x7d' :=
  (symbol_cases h).2.2 rfl

theorem symbol_of_zero {next : Option Char} (h : symbol c next = .ok (t, 0)) :
    symbol c none = .ok (t, 0) := by
  revert h
  fun_cases symbol c next <;> rintro ⟨⟩ <;> simp_all [symbol]

/-- The ways in which a lexeme begins with `c` and has so many characters of a text behind it. -/
inductive Begins (c : Char) (cs : List Char) : Lexeme → Nat → Prop
  | number {t : Lexeme} (hdigit : c.isDigit)
    (h : number (c :: cs.take (numberLength cs)) = .ok t) :
    Begins c cs t (numberLength cs)
  | string {value : List Char} {n : Nat} (hdigit : c.isDigit = false)
    (hquote : c == '\'' || c == '"') (h : stringBody c cs = .closed value n) :
    Begins c cs (.string (String.ofList value)) n
  | name (hdigit : c.isDigit = false) (hquote : (c == '\'' || c == '"') = false)
    (hletter : isLetter c || c == '_') :
    Begins c cs (.ofName (String.ofList (c :: cs.takeWhile isNameChar)))
      (cs.takeWhile isNameChar).length
  | symbol {t : Lexeme} {n : Nat} (hdigit : c.isDigit = false)
    (hquote : (c == '\'' || c == '"') = false) (hletter : (isLetter c || c == '_') = false)
    (h : symbol c cs.head? = .ok (t, n)) : Begins c cs t n

theorem lexeme_eq_ok_iff {p : Nat} : lexeme p c cs = .ok (t, n) ↔ Begins c cs t n := by
  constructor
  · intro h
    unfold lexeme at h
    split at h
    · next hdigit =>
      dsimp only at h
      split at h
      · next found hfound =>
        cases h
        exact .number hdigit hfound
      · cases h
    · next hdigit =>
      rw [Bool.not_eq_true] at hdigit
      split at h
      · next hquote =>
        split at h
        · next value n hbody =>
          cases h
          exact .string hdigit hquote hbody
        · cases h
        · cases h
      · next hquote =>
        rw [Bool.not_eq_true] at hquote
        split at h
        · next hletter =>
          cases h
          exact .name hdigit hquote hletter
        · next hletter =>
          rw [Bool.not_eq_true] at hletter
          split at h
          · next found hfound =>
            cases h
            exact .symbol hdigit hquote hletter hfound
          · cases h
  · intro h
    cases h with
    | number hdigit h => simp [lexeme, hdigit, h]
    | string hdigit hquote h => simp only [lexeme, hdigit, hquote, h]; rfl
    | name hdigit hquote hletter => simp only [lexeme, hdigit, hquote, hletter]; rfl
    | symbol hdigit hquote hletter h => simp only [lexeme, hdigit, hquote, hletter, h]; rfl

/-- A token that does not go beyond a part of the text is the token of that part. -/
theorem Begins.of_append (h : Begins c (cs ++ rest) t n) (hn : n ≤ cs.length) :
    Begins c cs t n := by
  cases h with
  | number hdigit h =>
    have hlength := numberLength_of_append hn
    rw [← hlength] at h hn ⊢
    rw [List.take_append_of_le_length hn] at h
    exact .number hdigit h
  | string hdigit hquote h => exact .string hdigit hquote (stringBody_append.1 ⟨h, hn⟩)
  | name hdigit hquote hletter =>
    rw [← takeWhile_of_append hn]
    exact .name hdigit hquote hletter
  | symbol hdigit hquote hletter h =>
    refine .symbol hdigit hquote hletter ?_
    cases cs with
    | cons d cs => exact h
    | nil =>
      rcases length_of_symbol h with rfl | ⟨rfl, -⟩
      · exact symbol_of_zero h
      · exact absurd hn (by decide)

/-- The character can stand in a token that is no string, behind its first character. -/
def IsInside (c : Char) : Prop :=
  isNameChar c ∨ c ∈ continuing

theorem isInside_of_digitsLength (cs : List Char) :
    ∀ c ∈ cs.take (digitsLength cs), IsInside c := by
  induction cs with
  | nil => simp
  | cons c cs ih =>
    rw [digitsLength]
    split
    · next hc =>
      rw [List.take_succ_cons, List.forall_mem_cons]
      refine ⟨?_, ih⟩
      simp only [Bool.or_eq_true, Bool.and_eq_true, beq_iff_eq] at hc
      rcases hc with (hc | rfl) | ⟨rfl, -⟩
      · exact .inl (isNameChar_of_isDigit hc)
      · exact .inl (by decide +kernel)
      · exact .inr (by decide)
    · simp

theorem isInside_of_signLength (cs : List Char) : ∀ c ∈ cs.take (signLength cs), IsInside c := by
  unfold signLength
  split
  · simpa using .inr (by decide)
  · simpa using .inr (by decide)
  · simp

theorem isInside_of_exponentLength (cs : List Char) :
    ∀ c ∈ cs.take (exponentLength cs), IsInside c := by
  cases cs with
  | nil => simp
  | cons c cs =>
    rw [exponentLength_cons]
    split
    · next hc =>
      split
      · simp
      · have hdigits := List.prefix_iff_eq_take.1
          (List.takeWhile_prefix (l := cs.drop (signLength cs)) Char.isDigit)
        rw [Nat.add_assoc, Nat.add_comm 1, List.take_succ_cons, List.take_add, ← hdigits,
          List.forall_mem_cons]
        refine ⟨?_, fun d hd => ?_⟩
        · rcases (by simpa using hc : c = 'e' ∨ c = 'E') with rfl | rfl <;>
            exact .inl (by decide +kernel)
        · rcases List.mem_append.1 hd with hd | hd
          · exact isInside_of_signLength cs d hd
          · have hdigit := List.all_eq_true.1 List.all_takeWhile d hd
            exact .inl (isNameChar_of_isDigit hdigit)
    · simp

theorem isInside_of_numberLength (cs : List Char) :
    ∀ c ∈ cs.take (numberLength cs), IsInside c := by
  rw [numberLength, List.take_add]
  intro c hc
  rcases List.mem_append.1 hc with hc | hc
  · exact isInside_of_digitsLength cs c hc
  · exact isInside_of_exponentLength _ c hc

theorem begins_append (hrest : EndsTokens rest) :
    Begins c (cs ++ rest) t n ∧ n ≤ cs.length ↔ Begins c cs t n := by
  have hnumber : numberLength (cs ++ rest) = numberLength cs := numberLength_append hrest
  have hname : (cs ++ rest).takeWhile isNameChar = cs.takeWhile isNameChar :=
    takeWhile_append_of_head? hrest.isNameChar
  have hsymbol : symbol c (cs ++ rest).head? = symbol c cs.head? := by
    cases cs with
    | nil => exact symbol_eq_none hrest.notMem
    | cons d cs => rfl
  have htake : (cs ++ rest).take (numberLength cs) = cs.take (numberLength cs) :=
    List.take_append_of_le_length (numberLength_le cs)
  constructor
  · rintro ⟨h, hn⟩
    exact h.of_append hn
  · intro h
    cases h with
    | number hdigit h =>
      refine ⟨?_, numberLength_le cs⟩
      rw [← hnumber]
      refine .number hdigit ?_
      rwa [hnumber, htake]
    | string hdigit hquote h =>
      obtain ⟨h, hn⟩ := stringBody_append.2 h
      exact ⟨.string hdigit hquote h, hn⟩
    | name hdigit hquote hletter =>
      refine ⟨?_, (List.takeWhile_sublist _).length_le⟩
      rw [← hname]
      exact .name hdigit hquote hletter
    | symbol hdigit hquote hletter h =>
      refine ⟨.symbol hdigit hquote hletter (hsymbol ▸ h), ?_⟩
      rcases length_of_symbol h with rfl | ⟨rfl, d, hd, -⟩
      · exact Nat.zero_le _
      · cases cs with
        | nil => cases hd
        | cons d cs => exact Nat.succ_le_succ (Nat.zero_le _)

theorem Begins.length_le (h : Begins c cs t n) : n ≤ cs.length :=
  ((begins_append endsTokens_nil).2 h).2

end Lexer
end RuleGraph

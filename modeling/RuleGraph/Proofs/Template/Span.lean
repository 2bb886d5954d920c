import RuleGraph.Proofs.Parsing.Tokens
import RuleGraph.Template
/-!
# Where a span ends

The end of a span is looked for character by character. Up to it the characters are those of tokens
and the blanks between them, and only two closing braces that are tokens can end a span.
-/
namespace RuleGraph.Template
open Lexer

/-- The character neither begins a string nor closes a brace. -/
structure IsInner (c : Char) : Prop where
  ne_brace : c ≠ '\x7d'
  ne_quote : (c == '\'' || c == '"') = false

variable {c : Char} {cs rest : List Char} {p n : Nat} {t : Lexeme} {ts : List Token}

theorem isInner_of {f : Char → Bool} (hc : f c) (hbrace : f '\x7d' = false)
    (hquote : f '\'' = false) (hquotes : f '"' = false) : IsInner c := by
  have hne {d : Char} (hd : f d = false) : c ≠ d := by
    rintro rfl
    rw [hc] at hd
    cases hd
  exact ⟨hne hbrace, by simp [hne hquote, hne hquotes]⟩

theorem map_add_map_add (length : Option Nat) {m k : Nat} (h : m + n = k) :
    (length.map (· + m)).map (· + n) = length.map (· + k) := by
  rw [Option.map_map]
  congr 1
  funext x
  simp only [Function.comp_apply]
  omega

theorem bodyLength_cons (hc : c ≠ '\x7d' ∨ cs.head? ≠ some '\x7d')
    (hquote : (c == '\'' || c == '"') = false) :
    bodyLength none (c :: cs) = (bodyLength none cs).map (· + 1) := by
  rw [bodyLength.eq_def]
  split
  · simp_all
  · simp_all
  · next h =>
    cases h
    rw [hquote]
    rfl
  · simp_all
  · simp_all
  · simp_all

theorem bodyLength_append (hcs : ∀ c ∈ cs, IsInner c) (rest : List Char) :
    bodyLength none (cs ++ rest) = (bodyLength none rest).map (· + cs.length) := by
  induction cs with
  | nil => simp
  | cons c cs ih =>
    rw [List.forall_mem_cons] at hcs
    rw [List.cons_append, bodyLength_cons (.inl hcs.1.ne_brace) hcs.1.ne_quote, ih hcs.2]
    exact map_add_map_add _ rfl

theorem segmentsFrom_of_bodyLength {k : Nat} (htext : textLength cs = some n)
    (hbody : bodyLength none (cs.drop (n + 2)) = some k) :
    segmentsFrom p cs = (do
      let e ← Expr.parse (String.ofList ((cs.drop (n + 2)).take k))
      let rest ← segmentsFrom
        (p + Text.byteCount (cs.take n) + Text.byteCount ((cs.drop (n + 2)).take k) + 4)
        ((cs.drop (n + 2)).drop (k + 2))
      return textSegment (cs.take n) ++ .span e :: rest) := by
  rw [segmentsFrom]
  split
  · next hnone =>
    rw [htext] at hnone
    cases hnone
  · next m hm =>
    obtain rfl : n = m := Option.some.inj (htext.symm.trans hm)
    simp only [hbody]

theorem bodyLength_quoted {quote : Char} (hc : c ≠ '\\') :
    bodyLength (some quote) (c :: cs) =
      (bodyLength (if c == quote then none else some quote) cs).map (· + 1) := by
  rw [bodyLength.eq_def]
  split <;> simp_all

theorem bodyLength_quote (hquote : c == '\'' || c == '"') :
    bodyLength none (c :: cs) = (bodyLength (some c) cs).map (· + 1) := by
  rcases (by simpa using hquote : c = '\'' ∨ c = '"') with rfl | rfl <;> simp [bodyLength]

theorem bodyLength_string {quote : Char} {value : List Char}
    (h : stringBody quote cs = .closed value n) :
    bodyLength (some quote) cs = (bodyLength none (cs.drop n)).map (· + n) := by
  induction cs using stringBody.induct quote generalizing value n with
  | case1 | case2 => cases h
  | case3 c cs ih =>
    obtain ⟨value', n', hbody, -, rfl⟩ := StringBody.push_eq_closed.1 h
    rw [bodyLength, ih hbody]
    exact map_add_map_add _ rfl
  | case4 c cs hend hmore hquote =>
    have hc : c ≠ '\\' := fun h => by cases cs <;> simp_all
    rw [stringBody_cons hc, if_pos hquote] at h
    cases h
    rw [bodyLength_quoted hc, if_pos hquote]
    rfl
  | case5 c cs hend hmore hquote ih =>
    have hc : c ≠ '\\' := fun h => by cases cs <;> simp_all
    rw [stringBody_cons hc, if_neg hquote] at h
    obtain ⟨value', n', hbody, -, rfl⟩ := StringBody.push_eq_closed.1 h
    rw [bodyLength_quoted hc, if_neg hquote, ih hbody]
    exact map_add_map_add _ rfl

theorem isInner_of_isNameChar (hc : isNameChar c) : IsInner c :=
  isInner_of hc (by decide +kernel) (by decide +kernel) (by decide +kernel)

theorem isInner_of_isBlank (hc : Text.isBlank c) : IsInner c :=
  isInner_of hc (by decide) (by decide) (by decide)

theorem isInner_of_continuing (hc : c ∈ continuing) : IsInner c :=
  isInner_of (f := fun c => continuing.contains c) (by simpa using hc) (by decide) (by decide)
    (by decide)

theorem isInner_of_numberLength (cs : List Char) :
    ∀ c ∈ cs.take (numberLength cs), IsInner c := fun c hc =>
  (isInside_of_numberLength cs c hc).elim isInner_of_isNameChar isInner_of_continuing

theorem symbol_brace {next : Option Char} : symbol '\x7d' next = .ok (.closeBrace, 0) := by
  simp [symbol]

/-- A token is a string or a closing brace, or it has none of their characters. -/
theorem characters_of_begins (h : Begins c cs t n) :
    (∃ value, (c == '\'' || c == '"') ∧ stringBody c cs = .closed value n) ∨
      (t = .closeBrace ∧ c = '\x7d' ∧ n = 0) ∨ ∀ d ∈ c :: cs.take n, IsInner d := by
  rw [List.forall_mem_cons]
  cases h with
  | number hdigit h =>
    exact .inr (.inr ⟨isInner_of_isNameChar (isNameChar_of_isDigit hdigit),
      isInner_of_numberLength cs⟩)
  | string hdigit hquote h => exact .inl ⟨_, hquote, h⟩
  | name hdigit hquote hletter =>
    have hprefix := List.prefix_iff_eq_take.1 (List.takeWhile_prefix (l := cs) isNameChar)
    refine .inr (.inr ⟨⟨?_, hquote⟩, fun d hd => ?_⟩)
    · rintro rfl
      exact absurd hletter (by decide +kernel)
    · rw [← hprefix] at hd
      exact isInner_of_isNameChar (List.all_eq_true.1 List.all_takeWhile d hd)
  | symbol hdigit hquote hletter h =>
    by_cases hc : c = '\x7d'
    · subst hc
      rw [symbol_brace] at h
      cases h
      exact .inr (.inl ⟨rfl, rfl, rfl⟩)
    · refine .inr (.inr ⟨⟨hc, hquote⟩, ?_⟩)
      rcases length_of_symbol h with rfl | ⟨rfl, d, hd, hmem⟩
      · simp
      · cases cs with
        | nil => cases hd
        | cons d' cs =>
          cases hd
          simpa using isInner_of_continuing hmem

theorem bodyLength_token (h : Begins c cs t n) (ht : t ≠ .closeBrace) :
    bodyLength none (c :: cs) = (bodyLength none (cs.drop n)).map (· + (n + 1)) := by
  rcases characters_of_begins h with ⟨value, hquote, hbody⟩ | ⟨hclose, -⟩ | hinner
  · rw [bodyLength_quote hquote, bodyLength_string hbody]
    exact map_add_map_add _ rfl
  · exact absurd hclose ht
  · have happend := bodyLength_append hinner (cs.drop n)
    rwa [List.cons_append, List.take_append_drop, List.length_cons,
      List.length_take_of_le h.length_le] at happend

/-- Whether the next token is a closing brace at a position. -/
def braceAt (p : Nat) : List Token → Bool
  | [] => false
  | t :: _ => t.lexeme == .closeBrace && t.position == p

/-- Whether two closing braces that are tokens stand directly behind each other. -/
def bracesTouch : List Token → Bool
  | [] => false
  | t :: rest => t.lexeme == .closeBrace && braceAt (t.position + 1) rest || bracesTouch rest

theorem begins_brace (h : Begins '\x7d' cs t n) : t = .closeBrace ∧ n = 0 := by
  cases h with
  | number hdigit => exact absurd hdigit (by decide)
  | string hdigit hquote => exact absurd hquote (by decide)
  | name hdigit hquote hletter => exact absurd hletter (by decide +kernel)
  | symbol hdigit hquote hletter h =>
    rw [symbol_brace] at h
    cases h
    exact ⟨rfl, rfl⟩

theorem eq_brace_of_begins (h : Begins c cs t n) (ht : t = .closeBrace) : c = '\x7d' := by
  cases h with
  | number hdigit h =>
    obtain ⟨x, rfl⟩ := exists_of_number h
    cases ht
  | string => cases ht
  | name =>
    unfold Lexeme.ofName at ht
    split at ht <;> cases ht
  | symbol hdigit hquote hletter h =>
    subst ht
    exact symbol_eq_closeBrace h

theorem le_position (h : Lexed p cs ts) : ∀ t ∈ ts, p ≤ t.position := by
  induction h with
  | nil => exact nofun
  | blank hc h ih => exact fun t ht => Nat.le_trans (Nat.le_add_right _ _) (ih t ht)
  | token hc ht h ih =>
    rw [List.forall_mem_cons]
    exact ⟨Nat.le_refl _, fun t ht => Nat.le_trans (Nat.le_add_right _ _) (ih t ht)⟩

theorem braceAt_iff (h : Lexed p cs ts) : braceAt p ts = true ↔ cs.head? = some '\x7d' := by
  cases h with
  | nil => exact ⟨nofun, nofun⟩
  | @blank p c cs ts hc h =>
    have hhead : (c :: cs).head? ≠ some '\x7d' := by
      rintro ⟨⟩
      exact absurd hc (by decide)
    have hbrace : braceAt p ts = false := by
      cases ts with
      | nil => rfl
      | cons t ts =>
        have hposition := le_position h t List.mem_cons_self
        have hsize := c.utf8Size_pos
        have hne : (t.position == p) = false := by
          simp only [beq_eq_false_iff_ne]
          omega
        rw [braceAt, hne, Bool.and_false]
    rw [hbrace]
    exact ⟨nofun, fun h => absurd h hhead⟩
  | @token p c cs rest t ts hc ht h =>
    rw [braceAt]
    simp only [beq_self_eq_true, Bool.and_true, List.head?_cons, Option.some.injEq]
    rw [Lexeme.beq_mark rfl]
    constructor
    · exact eq_brace_of_begins ht
    · rintro rfl
      exact (begins_brace ht).1

/-- A token is a closing brace with another one directly behind it exactly if both are in the
text. -/
theorem touches_iff (ht : Begins c (cs ++ rest) t cs.length)
    (h : Lexed (p + Text.byteCount (c :: cs)) rest ts) :
    (t == .closeBrace && braceAt (p + 1) ts) = true ↔
      t = .closeBrace ∧ rest.head? = some '\x7d' := by
  rw [Bool.and_eq_true, Lexeme.beq_mark rfl]
  refine and_congr_right fun hclose => ?_
  obtain rfl := eq_brace_of_begins ht hclose
  obtain rfl : cs = [] := List.eq_nil_of_length_eq_zero (begins_brace ht).2
  exact braceAt_iff h

theorem endsTokens_space : EndsTokens (' ' :: rest) :=
  endsTokens_cons (by decide +kernel) (by decide)

theorem endsTokens_brace : EndsTokens ('\x7d' :: rest) :=
  endsTokens_cons (by decide +kernel) (by decide)

theorem bodyLength_past (h : Begins c (cs ++ rest) t cs.length)
    (ht : t = .closeBrace → rest.head? ≠ some '\x7d') :
    bodyLength none (c :: (cs ++ rest)) = (bodyLength none rest).map (· + (cs.length + 1)) := by
  by_cases hclose : t = .closeBrace
  · obtain rfl := eq_brace_of_begins h hclose
    obtain rfl : cs = [] := List.eq_nil_of_length_eq_zero (begins_brace h).2
    exact bodyLength_cons (.inr (ht hclose)) rfl
  · rw [bodyLength_token h hclose, List.drop_left]

/-- If no closing braces touch, all of the tokens are passed. -/
theorem bodyLength_of_lexed (h : Lexed p cs ts) (htouch : bracesTouch ts = false) :
    bodyLength none (cs ++ ' ' :: rest) = (bodyLength none (' ' :: rest)).map (· + cs.length) := by
  induction h with
  | nil => simp
  | @blank p c cs ts hc h ih =>
    have hinner := isInner_of_isBlank hc
    rw [List.cons_append, bodyLength_cons (.inl hinner.ne_brace) hinner.ne_quote, ih htouch]
    exact map_add_map_add _ rfl
  | @token p c cs more t ts hc ht h ih =>
    simp only [bracesTouch, Bool.or_eq_false_iff] at htouch
    obtain ⟨hbrace, htouch⟩ := htouch
    have hbegins : Begins c (cs ++ (more ++ ' ' :: rest)) t cs.length := by
      rw [← List.append_assoc]
      exact ((begins_append endsTokens_space).2 ht).1
    have hhead : t = .closeBrace → (more ++ ' ' :: rest).head? ≠ some '\x7d' := by
      intro hclose
      have hmore := mt (touches_iff ht h).2 (Bool.not_eq_true _ ▸ hbrace)
      cases more with
      | nil => simp
      | cons d more => exact fun hd => hmore ⟨hclose, hd⟩
    rw [List.cons_append, List.append_assoc, bodyLength_past hbegins hhead, ih htouch]
    refine map_add_map_add _ ?_
    rw [List.length_cons, List.length_append]
    omega

/-- If closing braces touch, the tokens are passed up to the first ones that do. -/
theorem exists_of_bracesTouch (h : Lexed p cs ts) (htouch : bracesTouch ts = true) :
    ∃ front back before brace after, cs = front ++ '\x7d' :: back ∧ Lexed p front before ∧
      ts = before ++ brace :: after ∧ brace.lexeme = .closeBrace ∧
      ∀ rest, bodyLength none (cs ++ rest) = some front.length := by
  induction h with
  | nil => cases htouch
  | @blank p c cs ts hc h ih =>
    have hinner := isInner_of_isBlank hc
    obtain ⟨front, back, before, brace, after, rfl, hfront, hts, hbrace, hbody⟩ := ih htouch
    refine ⟨c :: front, back, before, brace, after, rfl, .blank hc hfront, hts, hbrace,
      fun rest => ?_⟩
    rw [List.cons_append, bodyLength_cons (.inl hinner.ne_brace) hinner.ne_quote, hbody]
    rfl
  | @token p c cs more t ts hc ht h ih =>
    rw [bracesTouch, Bool.or_eq_true, touches_iff ht h] at htouch
    by_cases hhere : t = .closeBrace ∧ more.head? = some '\x7d'
    · obtain ⟨hclose, hmore⟩ := hhere
      obtain rfl := eq_brace_of_begins ht hclose
      obtain rfl : cs = [] := List.eq_nil_of_length_eq_zero (begins_brace ht).2
      obtain ⟨back, rfl⟩ : ∃ back, more = '\x7d' :: back := List.head?_eq_some_iff.1 hmore
      exact ⟨[], '\x7d' :: back, [], ⟨t, p⟩, ts, rfl, .nil, rfl, hclose, fun rest => rfl⟩
    · obtain ⟨front, back, before, brace, after, rfl, hfront, rfl, hbrace, hbody⟩ :=
        ih (htouch.resolve_left hhere)
      have hbegins : Begins c (cs ++ front) t cs.length :=
        (begins_append endsTokens_brace).1 ⟨by rwa [List.append_assoc], by simp⟩
      refine ⟨c :: (cs ++ front), back, ⟨t, p⟩ :: before, brace, after, by simp,
        .token hc hbegins hfront, rfl, hbrace, fun rest => ?_⟩
      have hmore : Begins c (cs ++ (front ++ '\x7d' :: back ++ rest)) t cs.length := by
        have hends : EndsTokens ('\x7d' :: (back ++ rest)) := endsTokens_brace
        have h := ((begins_append hends).2 hbegins).1
        simpa using h
      have hhead : t = .closeBrace → (front ++ '\x7d' :: back ++ rest).head? ≠ some '\x7d' := by
        intro hclose hd
        refine hhere ⟨hclose, ?_⟩
        cases front with
        | nil => rfl
        | cons d front => exact hd
      rw [List.cons_append, List.append_assoc, bodyLength_past hmore hhead, hbody]
      simp only [Option.map_some, List.length_cons, List.length_append, Option.some.injEq]
      omega

end RuleGraph.Template

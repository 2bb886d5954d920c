import RuleGraph.Expr.Parser
import RuleGraph.Proofs.Parsing.Lexing
/-!
# The tokens of a text

Between its blanks a text is cut into tokens, whose lexemes are the same wherever the text begins.
-/
namespace RuleGraph
namespace Lexer
open Text

theorem byteCount_append (cs rest : List Char) :
    byteCount (cs ++ rest) = byteCount cs + byteCount rest := by
  induction cs with
  | nil => exact (Nat.zero_add _).symm
  | cons c cs ih =>
    change c.utf8Size + byteCount (cs ++ rest) = c.utf8Size + byteCount cs + byteCount rest
    rw [ih, Nat.add_assoc]

theorem byteCount_cons (c : Char) (cs : List Char) :
    byteCount (c :: cs) = c.utf8Size + byteCount cs := rfl

/-- The tokens in a text that begins at a position; the end is none of them. -/
inductive Lexed : (position : Nat) → List Char → List Token → Prop
  | nil {p : Nat} : Lexed p [] []
  | blank {p : Nat} {c : Char} {cs : List Char} {ts : List Token} (hc : isBlank c)
    (h : Lexed (p + c.utf8Size) cs ts) : Lexed p (c :: cs) ts
  | token {p : Nat} {c : Char} {cs rest : List Char} {t : Lexeme} {ts : List Token}
    (hc : isBlank c = false) (ht : Begins c (cs ++ rest) t cs.length)
    (h : Lexed (p + byteCount (c :: cs)) rest ts) : Lexed p (c :: (cs ++ rest)) (⟨t, p⟩ :: ts)

variable {p : Nat} {cs : List Char} {ts tokens : List Token}

theorem lexed_of_tokensFrom (h : tokensFrom p cs = .ok tokens) :
    ∃ ts, Lexed p cs ts ∧ tokens = ts ++ [⟨.eof, p + byteCount cs⟩] := by
  induction p, cs using tokensFrom.induct generalizing tokens with
  | case1 p =>
    rw [tokensFrom] at h
    cases h
    exact ⟨[], .nil, rfl⟩
  | case2 p c cs hc ih =>
    rw [tokensFrom, if_pos hc] at h
    obtain ⟨ts, hts, rfl⟩ := ih h
    exact ⟨ts, .blank hc hts, by rw [byteCount_cons, Nat.add_assoc]⟩
  | case3 p c cs hc e he =>
    rw [tokensFrom, if_neg hc, he] at h
    cases h
  | case4 p c cs hc t n ht e he ih =>
    rw [tokensFrom, if_neg hc, ht] at h
    simp only [he] at h
    cases h
  | case5 p c cs hc t n ht rest hrest ih =>
    rw [tokensFrom, if_neg hc, ht] at h
    simp only [hrest] at h
    cases h
    obtain ⟨ts, hts, rfl⟩ := ih hrest
    have hbegins := lexeme_eq_ok_iff.1 ht
    have hlength : (cs.take n).length = n := List.length_take_of_le hbegins.length_le
    have hbytes : byteCount (c :: cs) = byteCount (c :: cs.take n) + byteCount (cs.drop n) := by
      rw [← byteCount_append, List.cons_append, List.take_append_drop]
    refine ⟨⟨t, p⟩ :: ts, ?_, by rw [hbytes, Nat.add_assoc]; rfl⟩
    conv in Lexed _ _ => rw [← List.take_append_drop n cs]
    refine .token (by simpa using hc) ?_ hts
    rwa [List.take_append_drop, hlength]

theorem Lexed.tokensFrom (h : Lexed p cs ts) :
    tokensFrom p cs = .ok (ts ++ [⟨.eof, p + byteCount cs⟩]) := by
  induction h with
  | nil => rw [Lexer.tokensFrom]; rfl
  | @blank p c cs ts hc h ih =>
    rw [Lexer.tokensFrom, if_pos hc, ih, byteCount_cons, Nat.add_assoc]
  | @token p c cs rest t ts hc ht h ih =>
    have hbytes : byteCount (c :: (cs ++ rest)) = byteCount (c :: cs) + byteCount rest :=
      byteCount_append (c :: cs) rest
    rw [Lexer.tokensFrom, if_neg (by simp [hc]), lexeme_eq_ok_iff.2 ht]
    simp only [List.take_left, List.drop_left, ih, hbytes, Nat.add_assoc, List.cons_append]

/-- The lexemes in a text, wherever it begins. -/
def LexedAs (cs : List Char) (lexemes : List Lexeme) : Prop :=
  ∀ p, ∃ ts, Lexed p cs ts ∧ ts.map Token.lexeme = lexemes

theorem lexedAs_nil : LexedAs [] [] :=
  fun _ => ⟨[], .nil, rfl⟩

variable {c : Char} {rest : List Char} {t : Lexeme} {lexemes : List Lexeme}

theorem LexedAs.blank (h : LexedAs cs lexemes) (hc : isBlank c) : LexedAs (c :: cs) lexemes := by
  intro p
  obtain ⟨ts, hts, hlexemes⟩ := h (p + c.utf8Size)
  exact ⟨ts, .blank hc hts, hlexemes⟩

theorem LexedAs.token (h : LexedAs rest lexemes) (hc : isBlank c = false)
    (ht : Begins c (cs ++ rest) t cs.length) : LexedAs (c :: (cs ++ rest)) (t :: lexemes) := by
  intro p
  obtain ⟨ts, hts, hlexemes⟩ := h (p + byteCount (c :: cs))
  exact ⟨⟨t, p⟩ :: ts, .token hc ht hts, by rw [List.map_cons, hlexemes]⟩

theorem LexedAs.single (h : LexedAs rest lexemes) (hc : isBlank c = false)
    (ht : Begins c rest t 0) : LexedAs (c :: rest) (t :: lexemes) := by
  rw [← List.nil_append rest] at ht ⊢
  exact h.token hc ht

theorem Lexed.lexedAs (h : Lexed p cs ts) : LexedAs cs (ts.map Token.lexeme) := by
  induction h with
  | nil => exact lexedAs_nil
  | blank hc h ih => exact ih.blank hc
  | token hc ht h ih => exact ih.token hc ht

theorem Lexed.append {rest : List Char} {us : List Token} (h : Lexed p cs ts)
    (hends : EndsTokens rest) (hrest : Lexed (p + byteCount cs) rest us) :
    Lexed p (cs ++ rest) (ts ++ us) := by
  induction h with
  | nil => exact hrest
  | blank hd h ih =>
    refine .blank hd (ih ?_)
    rwa [byteCount_cons, ← Nat.add_assoc] at hrest
  | @token p d cs rest' t ts hd ht h ih =>
    rw [List.cons_append, List.append_assoc]
    refine .token hd ?_ (ih ?_)
    · rw [← List.append_assoc]
      exact ((begins_append hends).2 ht).1
    · rwa [← List.cons_append, byteCount_append, ← Nat.add_assoc] at hrest

theorem Lexed.append_blank (h : Lexed p cs ts) {c : Char} (hc : isBlank c)
    (hends : EndsTokens [c]) : Lexed p (cs ++ [c]) ts := by
  simpa using h.append hends (.blank hc .nil)

theorem LexedAs.append {others : List Lexeme} (h : LexedAs cs lexemes) (hends : EndsTokens rest)
    (hrest : LexedAs rest others) : LexedAs (cs ++ rest) (lexemes ++ others) := by
  intro p
  obtain ⟨ts, hts, rfl⟩ := h p
  obtain ⟨us, hus, rfl⟩ := hrest (p + byteCount cs)
  exact ⟨ts ++ us, hts.append hends hus, List.map_append⟩

theorem exists_of_number {written : List Char} {t : Lexeme} (h : number written = .ok t) :
    ∃ x, t = .number x := by
  unfold number at h
  dsimp only at h
  split at h
  · split at h <;> cases h
    exact ⟨_, rfl⟩
  · cases h

theorem Begins.ne_eof {c : Char} {t : Lexeme} {n : Nat} (h : Begins c cs t n) : t ≠ .eof := by
  cases h with
  | number hdigit h =>
    obtain ⟨x, rfl⟩ := exists_of_number h
    exact nofun
  | string => exact nofun
  | name =>
    unfold Lexeme.ofName
    split <;> exact nofun
  | symbol hdigit hquote hletter h =>
    rintro rfl
    cases isMark_of_symbol h

theorem Begins.isLetter_of_identifier {c : Char} {t : Lexeme} {n : Nat} (h : Begins c cs t n)
    {name : String} (ht : t = .identifier name) :
    (isLetter c || c == '_') ∧ name.toList.head? = some c := by
  cases h with
  | number hdigit h =>
    obtain ⟨x, rfl⟩ := exists_of_number h
    cases ht
  | string => cases ht
  | name hdigit hquote hletter =>
    refine ⟨hletter, ?_⟩
    unfold Lexeme.ofName at ht
    split at ht <;> cases ht
    simp
  | symbol hdigit hquote hletter h =>
    subst ht
    cases isMark_of_symbol h

theorem Lexed.forall_lexeme {P : Lexeme → Prop} (h : Lexed p cs ts)
    (hP : ∀ {c cs t n}, Begins c cs t n → P t) : ∀ t ∈ ts.map Token.lexeme, P t := by
  induction h with
  | nil => exact nofun
  | blank hc h ih => exact ih
  | token hc ht h ih =>
    rw [List.map_cons, List.forall_mem_cons]
    exact ⟨hP ht, ih⟩

theorem Lexed.eof_notMem (h : Lexed p cs ts) : .eof ∉ ts.map Token.lexeme :=
  fun heof => h.forall_lexeme (fun hbegins => hbegins.ne_eof) .eof heof rfl

/-- The tokens of a text are those in it and the end. -/
theorem tokens_eq_ok_iff {source : String} :
    Lexer.tokens source = .ok tokens ↔
      ∃ ts, Lexed 0 source.toList ts ∧ tokens = ts ++ [⟨.eof, byteCount source.toList⟩] := by
  constructor
  · intro h
    obtain ⟨ts, hts, rfl⟩ := lexed_of_tokensFrom h
    exact ⟨ts, hts, by rw [Nat.zero_add]⟩
  · rintro ⟨ts, hts, rfl⟩
    rw [Lexer.tokens, hts.tokensFrom, Nat.zero_add]

theorem tokens_empty : Lexer.tokens "" = .ok [⟨.eof, 0⟩] :=
  tokens_eq_ok_iff.2 ⟨[], .nil, rfl⟩

theorem tokens_hyphen : Lexer.tokens "-" = .ok [⟨.minus, 0⟩, ⟨.eof, 1⟩] := by
  have hminus : Begins '-' ([] ++ []) .minus ([] : List Char).length :=
    .symbol (by decide) (by decide) (by decide +kernel) rfl
  exact tokens_eq_ok_iff.2 ⟨_, .token (by decide) hminus .nil, rfl⟩

theorem exists_of_tokens {source : String} (h : Lexer.tokens source = .ok tokens) :
    ∃ ts, tokens.map Token.lexeme = ts ++ [.eof] ∧ .eof ∉ ts := by
  obtain ⟨ts, hts, rfl⟩ := tokens_eq_ok_iff.1 h
  exact ⟨ts.map Token.lexeme, by simp, hts.eof_notMem⟩

theorem LexedAs.eof_notMem (h : LexedAs cs lexemes) : .eof ∉ lexemes := by
  obtain ⟨ts, hts, rfl⟩ := h 0
  exact hts.eof_notMem

theorem tokens_of_lexedAs {lexemes : List Lexeme} (h : LexedAs cs lexemes) :
    ∃ tokens, Lexer.tokens (String.ofList cs) = .ok tokens ∧
      tokens.map Token.lexeme = lexemes ++ [.eof] := by
  obtain ⟨ts, hts, rfl⟩ := h 0
  rw [← String.toList_ofList (l := cs)] at hts
  exact ⟨_, tokens_eq_ok_iff.2 ⟨ts, hts, rfl⟩, by simp⟩

end Lexer

theorem Expr.parse_eq_ok_iff {source : String} {e : Expr} :
    Expr.parse source = .ok e ↔ Text.allBlank source = false ∧ ∃ tokens c,
      Lexer.tokens source = .ok tokens ∧
      Parser.wholeExpression ⟨tokens, 0⟩ = .ok (e, c) := by
  unfold Expr.parse
  cases hblank : Text.allBlank source with
  | true => exact ⟨nofun, nofun⟩
  | false =>
    simp only [Bool.false_eq_true, if_false, pure_eq_ok, bind_eq_ok, Except.ok.injEq, Prod.exists,
      exists_and_left, true_and]
    constructor
    · rintro ⟨tokens, htokens, _, c, h, rfl⟩
      exact ⟨tokens, htokens, c, h⟩
    · rintro ⟨tokens, htokens, c, h⟩
      exact ⟨tokens, htokens, e, c, h, rfl⟩

/-- A cell is one that holds always, or its tokens are read to their end. -/
theorem Expr.parseCell_eq_ok_iff {source : String} {e : Expr} :
    Expr.parseCell source = .ok e ↔
      if Text.trim source = "" ∨ Text.trim source = "-" then e = .bool true
      else ∃ tokens c, Lexer.tokens (Text.trim source) = .ok tokens ∧
        Parser.wholeCell ⟨tokens, 0⟩ = .ok (e, c) := by
  unfold Expr.parseCell
  dsimp only
  split
  · exact ⟨fun h => (Except.ok.inj h).symm, fun h => congrArg Except.ok h.symm⟩
  · simp only [pure_eq_ok, bind_eq_ok, Except.ok.injEq, Prod.exists, exists_and_left]
    constructor
    · rintro ⟨tokens, htokens, _, c, h, rfl⟩
      exact ⟨tokens, htokens, c, h⟩
    · rintro ⟨tokens, htokens, c, h⟩
      exact ⟨tokens, htokens, e, c, h, rfl⟩

end RuleGraph

import RuleGraph.Proofs.Parsing.OpenBrackets
import RuleGraph.Proofs.Parsing.Continuation
import RuleGraph.Proofs.Template.Span
/-!
# Expressions in templates

An expression can stand in a span unless two of its closing braces touch, which end the span.
-/
namespace RuleGraph.Template
open Lexer

/-- The text of an expression as a template, with a space between it and the braces. -/
def embedded (source : String) : String :=
  "\x7b\x7b " ++ source ++ " \x7d\x7d"

theorem toList_embedded (source : String) :
    (embedded source).toList =
      '\x7b' :: '\x7b' :: ' ' :: (source.toList ++ [' ', '\x7d', '\x7d']) := by
  simp [embedded]

theorem segmentsFrom_span {p k : Nat} {inside : List Char} (h : bodyLength none inside = some k) :
    segmentsFrom p ('\x7b' :: '\x7b' :: inside) = (do
      let e ← Expr.parse (String.ofList (inside.take k))
      let rest ← segmentsFrom (p + Text.byteCount (inside.take k) + 4) (inside.drop (k + 2))
      return .span e :: rest) := by
  have htext : textLength ('\x7b' :: '\x7b' :: inside) = some 0 := by
    simp [textLength, opening, List.isPrefixOf]
  have hbytes : Text.byteCount [] = 0 := rfl
  have hsegment : textSegment [] = [] := rfl
  rw [segmentsFrom_of_bodyLength htext h]
  simp only [Nat.zero_add, List.drop_succ_cons, List.drop_zero, List.take_zero, hbytes,
    Nat.add_zero, hsegment, List.nil_append]

theorem segmentsFrom_nil (p : Nat) : segmentsFrom p [] = .ok [] := by
  rw [segmentsFrom]
  rfl

theorem braceAt_append_eof (p q : Nat) (ts : List Token) :
    braceAt p (ts ++ [⟨.eof, q⟩]) = braceAt p ts := by
  cases ts <;> rfl

theorem bracesTouch_append_eof (q : Nat) (ts : List Token) :
    bracesTouch (ts ++ [⟨.eof, q⟩]) = bracesTouch ts := by
  induction ts with
  | nil => rfl
  | cons t ts ih => rw [List.cons_append, bracesTouch, bracesTouch, ih, braceAt_append_eof]

theorem within_of_parse {cs : List Char} {lexemes : List Lexeme} (hcs : LexedAs cs lexemes)
    {e : Expr} (h : Expr.parse (String.ofList cs) = .ok e) : ∃ d, Brackets.Within d lexemes := by
  obtain ⟨tokens, ts, d, htokens, hts, -, hderives⟩ := Expr.derives_of_parse h
  obtain ⟨tokens', htokens', hlexemes⟩ := tokens_of_lexedAs hcs
  obtain rfl : tokens = tokens' := Except.ok.inj (htokens.symm.trans htokens')
  obtain rfl : ts = lexemes := List.append_cancel_right (hts.symm.trans hlexemes)
  exact ⟨d, hderives.within⟩

theorem bodyLength_space (cs : List Char) :
    bodyLength none (' ' :: cs) = (bodyLength none cs).map (· + 1) :=
  bodyLength_cons (.inl (by decide)) rfl

section
variable {source : String} {e : Expr} (h : Expr.parse source = .ok e) {ts : List Token}
  (hts : Lexed 0 source.toList ts)
include h hts

/-- What is in front of braces that touch has an open brace left. -/
theorem parse_embedded_of_touch (htouch : bracesTouch ts = true) :
    ∃ x, Template.parse (embedded source) = .error x := by
  obtain ⟨front, back, before, brace, after, hsource, hfront, rfl, hbrace, hbody⟩ :=
    exists_of_bracesTouch hts htouch
  have hlength := bodyLength_space (source.toList ++ [' ', '\x7d', '\x7d'])
  rw [hbody] at hlength
  have htake : (' ' :: (source.toList ++ [' ', '\x7d', '\x7d'])).take (front.length + 1) =
      ' ' :: front := by
    simp [hsource]
  rw [Template.parse, toList_embedded, segmentsFrom_span hlength, htake]
  cases hparse : Expr.parse (String.ofList (' ' :: front)) with
  | error x => exact ⟨x, rfl⟩
  | ok e' =>
    obtain ⟨d, hwithin⟩ := within_of_parse (hfront.lexedAs.blank (by decide)) hparse
    obtain ⟨d', hwithin'⟩ := within_of_parse hts.lexedAs (by rwa [String.ofList_toList])
    rw [List.map_append, List.map_cons] at hwithin'
    exact absurd (.inr (.inr hbrace)) (hwithin.not_closes hwithin')

/-- The blanks around an expression make no difference to it. -/
theorem parse_spaced :
    Expr.parse (String.ofList (' ' :: (source.toList ++ [' ']))) = .ok e := by
  have hspaced : LexedAs (String.ofList (' ' :: (source.toList ++ [' ']))).toList
      (ts.map Token.lexeme) := by
    rw [String.toList_ofList]
    exact (hts.append_blank (by decide) endsTokens_space).lexedAs.blank (by decide)
  have hblank : Text.allBlank (String.ofList (' ' :: (source.toList ++ [' ']))) = false := by
    have hsource := (Expr.parse_eq_ok_iff.1 h).1
    simp only [Text.allBlank, String.toList_ofList] at hsource ⊢
    simp [hsource]
  exact Expr.parse_of_lexedAs h hts.lexedAs hspaced hblank

theorem parse_embedded_of_apart (hapart : bracesTouch ts = false) :
    Template.parse (embedded source) = .ok [.span e] := by
  have hbody : bodyLength none (source.toList ++ [' ', '\x7d', '\x7d']) =
      (bodyLength none [' ', '\x7d', '\x7d']).map (· + source.toList.length) :=
    bodyLength_of_lexed hts hapart
  have hend : bodyLength none [' ', '\x7d', '\x7d'] = some 1 := rfl
  have hlength := bodyLength_space (source.toList ++ [' ', '\x7d', '\x7d'])
  rw [hbody, hend, Option.map_some, Option.map_some] at hlength
  have htake : (' ' :: (source.toList ++ [' ', '\x7d', '\x7d'])).take
      (1 + source.toList.length + 1) = ' ' :: (source.toList ++ [' ']) := by
    have hsplit : ' ' :: (source.toList ++ [' ', '\x7d', '\x7d']) =
        ' ' :: (source.toList ++ [' ']) ++ ['\x7d', '\x7d'] := by simp
    rw [hsplit, List.take_left' (by simp [Nat.add_comm])]
  have hdrop : (' ' :: (source.toList ++ [' ', '\x7d', '\x7d'])).drop
      (1 + source.toList.length + 1 + 2) = [] :=
    List.drop_eq_nil_of_le (by
      simp only [List.length_cons, List.length_append, List.length_nil]
      omega)
  rw [Template.parse, toList_embedded, segmentsFrom_span hlength, htake, hdrop,
    parse_spaced h hts, segmentsFrom_nil]
  rfl

end

/-- The text of a parsed expression, put between double braces, is a template with the one segment
that is the expression. If two closing braces of the text touch, they end the span too early for
what is in front of them to be parsed. -/
theorem parse_embedded {source : String} {e : Expr} (h : Expr.parse source = .ok e)
    {tokens : List Token} (htokens : Lexer.tokens source = .ok tokens) :
    if bracesTouch tokens then ∃ x, Template.parse (embedded source) = .error x
    else Template.parse (embedded source) = .ok [.span e] := by
  obtain ⟨ts, hts, rfl⟩ := tokens_eq_ok_iff.1 htokens
  rw [bracesTouch_append_eof]
  split
  · next htouch => exact parse_embedded_of_touch h hts htouch
  · next hapart => exact parse_embedded_of_apart h hts (by simpa using hapart)

theorem spacedBraces_embedded :
    ∃ e, Expr.parse "\x7ba: \x7b\x7d \x7d" = .ok e ∧
      Template.parse (embedded "\x7ba: \x7b\x7d \x7d") = .ok [.span e] := by
  have hok : (Expr.parse "\x7ba: \x7b\x7d \x7d").isOk := by decide +kernel
  have htouch : (Lexer.tokens "\x7ba: \x7b\x7d \x7d").toOption.map bracesTouch = some false := by
    decide +kernel
  cases hparse : Expr.parse "\x7ba: \x7b\x7d \x7d" with
  | error x =>
    rw [hparse] at hok
    cases hok
  | ok e =>
    obtain ⟨-, tokens, c, htokens, -⟩ := Expr.parse_eq_ok_iff.1 hparse
    have hembedded := parse_embedded hparse htokens
    have hapart : bracesTouch tokens = false := by
      rw [htokens] at htouch
      exact Option.some.inj htouch
    rw [hapart] at hembedded
    exact ⟨e, rfl, hembedded⟩

/-- Not every parsed expression is a template in double braces. -/
theorem touchingBraces_not_embedded :
    (∃ e, Expr.parse "\x7ba: \x7b\x7d\x7d" = .ok e) ∧
      ∃ x, Template.parse (embedded "\x7ba: \x7b\x7d\x7d") = .error x := by
  have hok : (Expr.parse "\x7ba: \x7b\x7d\x7d").isOk = true := by decide +kernel
  have hfails : (Template.parse (embedded "\x7ba: \x7b\x7d\x7d")).isOk = false := by
    decide +kernel
  constructor
  · cases hparse : Expr.parse "\x7ba: \x7b\x7d\x7d" with
    | error x =>
      rw [hparse] at hok
      cases hok
    | ok e => exact ⟨e, rfl⟩
  · cases hparse : Template.parse (embedded "\x7ba: \x7b\x7d\x7d") with
    | error x => exact ⟨x, rfl⟩
    | ok template =>
      rw [hparse] at hfails
      cases hfails

end RuleGraph.Template

import Mathlib
import RuleGraph.Json.Variant
import RuleGraph.Proofs.Json.Rereading
import RuleGraph.Proofs.Json.Trees
import RuleGraph.Proofs.Parsing.DeepBrackets
/-!
# JSON text is an expression

The JSON text of a tree is cut into the tokens of the expression that it is read as, and parsed as
this expression unless the tree is too deep.
-/
namespace RuleGraph
open Lexer

theorem isNameChar_of_isAlpha {c : Char} (h : c.isAlpha) : isNameChar c := by
  simp [isNameChar, Text.isLetterOrNumeral, Char.isAlphanum, h]

theorem lexedAs_word (c : Char) (cs : List Char) (hdigit : c.isDigit = false)
    (hquote : (c == '\'' || c == '"') = false) (hc : c.isAlpha)
    (hcs : cs.all Char.isAlpha) :
    LexedAs (c :: cs) [.ofName (String.ofList (c :: cs))] := by
  have hletter : (Text.isLetter c || c == '_') = true := by simp [Text.isLetter, hc]
  have htake : (cs ++ []).takeWhile isNameChar = cs := by
    rw [List.append_nil, List.takeWhile_eq_self_iff]
    exact fun d hd => isNameChar_of_isAlpha (List.all_eq_true.1 hcs d hd)
  have hbegins : Begins c (cs ++ [])
      (.ofName (String.ofList (c :: (cs ++ []).takeWhile isNameChar)))
      ((cs ++ []).takeWhile isNameChar).length := .name hdigit hquote hletter
  rw [htake] at hbegins
  have hlexed := lexedAs_nil.token (isBlank_of_isNameChar (isNameChar_of_isAlpha hc)) hbegins
  rwa [List.append_nil] at hlexed

theorem lexedAs_null : LexedAs Json.null.chars Value.null.lexemes :=
  lexedAs_word 'n' ['u', 'l', 'l'] (by decide) (by decide) (by decide) (by decide)

theorem lexedAs_bool (b : Bool) : LexedAs (Json.bool b).chars (Value.bool b).lexemes := by
  cases b with
  | true =>
    exact lexedAs_word 't' ['r', 'u', 'e'] (by decide) (by decide) (by decide)
      (by decide)
  | false =>
    exact lexedAs_word 'f' ['a', 'l', 's', 'e'] (by decide) (by decide) (by decide)
      (by decide)

theorem endsTokens_closeBracket {rest : List Char} : EndsTokens (']' :: rest) :=
  endsTokens_cons (by decide +kernel) (by decide)

theorem endsTokens_closeBrace {rest : List Char} : EndsTokens ('\x7d' :: rest) :=
  endsTokens_cons (by decide +kernel) (by decide)

theorem lexedAs_openBrace {cs : List Char} {lexemes : List Lexeme} (h : LexedAs cs lexemes) :
    LexedAs ('\x7b' :: cs) (.openBrace :: lexemes) :=
  h.single (by decide) (.symbol (by decide) (by decide) (by decide +kernel) rfl)

theorem lexedAs_closeBrace {cs : List Char} {lexemes : List Lexeme} (h : LexedAs cs lexemes) :
    LexedAs ('\x7d' :: cs) (.closeBrace :: lexemes) :=
  h.single (by decide) (.symbol (by decide) (by decide) (by decide +kernel) rfl)

theorem lexedAs_member (k : String) {cs : List Char} {lexemes : List Lexeme}
    (h : LexedAs cs lexemes) :
    LexedAs (Json.stringChars k ++ ':' :: cs) (.string (rereadString k) :: .colon :: lexemes) :=
  (lexedAs_stringChars k).append (endsTokens_cons (by decide +kernel) (by decide))
    (h.single (by decide) (.symbol (by decide) (by decide) (by decide +kernel) rfl))

theorem commaSeparated_singleton (part : List Lexeme) : commaSeparated [part] = part := by
  rw [commaSeparated_cons, afterCommas_nil, List.append_nil]

theorem commaSeparated_cons_cons (part next : List Lexeme) (rest : List (List Lexeme)) :
    commaSeparated (part :: next :: rest) =
      part ++ .comma :: commaSeparated (next :: rest) := by
  rw [commaSeparated_cons, commaSeparated_cons, afterCommas_cons]

namespace Json

mutual

/-- The text of a tree is cut into the tokens of the expression that it is read as. -/
theorem lexedAs_chars (j : Json) (h : j.WellFormed) :
    LexedAs j.chars (Value.ofJson j).reading.lexemes := by
  match j with
  | .null => exact lexedAs_null
  | .bool b => exact lexedAs_bool b
  | .integer n =>
    cases h with
    | integer hlow hhigh => exact Number.lexedAs_intChars (by omega)
  | .decimal x =>
    cases h with
    | decimal h =>
      rw [chars, decimalChars, if_pos h]
      exact Number.lexedAs_write decimalNotation h
  | .string s => exact lexedAs_stringChars s
  | .array items =>
    cases h with
    | array h =>
      exact Expr.lexedAs_openBracket ((lexedAs_itemChars items h).append endsTokens_closeBracket
        (Expr.lexedAs_closeBracket lexedAs_nil))
  | .object members =>
    cases h with
    | object hsorted h =>
      exact lexedAs_openBrace ((lexedAs_memberChars members h).append endsTokens_closeBrace
        (lexedAs_closeBrace lexedAs_nil))
termination_by structural j

theorem lexedAs_itemChars (items : List Json) (h : ∀ j ∈ items, j.WellFormed) :
    LexedAs (itemChars items) (commaSeparated
      (Expr.allLexemes (Value.itemReadings (Value.ofItems items)))) := by
  match items with
  | [] => exact lexedAs_nil
  | j :: rest =>
    obtain ⟨hj, hrest⟩ := List.forall_mem_cons.1 h
    have hfirst := lexedAs_chars j hj
    have hothers := lexedAs_itemChars rest hrest
    match rest with
    | [] =>
      rw [Value.ofItems, Value.ofItems, Value.itemReadings, Value.itemReadings, Expr.allLexemes,
        Expr.allLexemes, commaSeparated_singleton]
      exact hfirst
    | next :: rest =>
      obtain ⟨hends, hcomma⟩ := hothers.comma
      rw [Value.ofItems, Value.ofItems, Value.itemReadings, Value.itemReadings, Expr.allLexemes,
        Expr.allLexemes, commaSeparated_cons_cons]
      exact hfirst.append hends hcomma
termination_by structural items

theorem lexedAs_memberChars (members : List (String × Json)) (h : ∀ m ∈ members, m.2.WellFormed) :
    LexedAs (memberChars members) (commaSeparated
      (Expr.entriesLexemes (Value.memberReadings (Value.ofMembers members)))) := by
  match members with
  | [] => exact lexedAs_nil
  | (k, j) :: rest =>
    obtain ⟨hj, hrest⟩ := List.forall_mem_cons.1 h
    have hfirst := lexedAs_member k (lexedAs_chars j hj)
    have hothers := lexedAs_memberChars rest hrest
    match rest with
    | [] =>
      rw [Value.ofMembers, Value.ofMembers, Value.memberReadings, Value.memberReadings,
        Expr.entriesLexemes, Expr.entriesLexemes, commaSeparated_singleton]
      exact hfirst
    | (key, next) :: rest =>
      obtain ⟨hends, hcomma⟩ := hothers.comma
      rw [Value.ofMembers, Value.ofMembers, Value.memberReadings, Value.memberReadings,
        Expr.entriesLexemes, Expr.entriesLexemes, commaSeparated_cons_cons]
      have hboth := hfirst.append hends hcomma
      rw [List.append_assoc] at hboth
      exact hboth
termination_by structural members

end

mutual

/-- A number with a sign takes one level more than the brackets around it. -/
theorem nesting_reading_le (j : Json) : (Value.ofJson j).reading.nesting ≤ j.depth + 1 := by
  match j with
  | .null | .bool _ | .string _ => exact Nat.zero_le _
  | .integer _ | .decimal _ =>
    rw [Value.ofJson, Value.reading, Expr.number, Expr.nesting]
    split
    · exact Nat.le_refl 1
    · exact Nat.zero_le _
  | .array items => exact allNesting_itemReadings_le items
  | .object members => exact entriesNesting_memberReadings_le members
termination_by structural j

theorem allNesting_itemReadings_le (items : List Json) :
    Expr.allNesting (Value.itemReadings (Value.ofItems items)) ≤ itemsDepth items + 2 := by
  match items with
  | [] => exact Nat.zero_le _
  | j :: rest =>
    have hfirst := nesting_reading_le j
    have hothers := allNesting_itemReadings_le rest
    rw [Value.ofItems, Value.itemReadings, Expr.allNesting, itemsDepth]
    omega
termination_by structural items

theorem entriesNesting_memberReadings_le (members : List (String × Json)) :
    Expr.entriesNesting (Value.memberReadings (Value.ofMembers members)) ≤
      membersDepth members + 2 := by
  match members with
  | [] => exact Nat.zero_le _
  | (k, j) :: rest =>
    have hfirst := nesting_reading_le j
    have hothers := entriesNesting_memberReadings_le rest
    rw [Value.ofMembers, Value.memberReadings, Expr.entriesNesting, membersDepth]
    omega
termination_by structural members

end

end Json

theorem Lexer.Lexed.eq_nil_of_blank {p : Nat} {cs : List Char} {ts : List Token}
    (h : Lexed p cs ts) (hblank : cs.all Text.isBlank) : ts = [] := by
  induction h with
  | nil => rfl
  | blank hc h ih =>
    rw [List.all_cons, Bool.and_eq_true] at hblank
    exact ih hblank.2
  | token hc ht h ih =>
    rw [List.all_cons, hc] at hblank
    cases hblank

theorem Value.lexemes_reading_ne_nil (v : Value) : v.reading.lexemes ≠ [] := by
  cases v with
  | number x =>
    rw [Value.reading, Expr.number, Expr.lexemes, Value.lexemes]
    split <;> exact List.cons_ne_nil _ _
  | _ => exact List.cons_ne_nil _ _

/-- The text of a tree is parsed as the expression that it is read as, unless it nests too deeply
for expressions. -/
theorem Json.parse_text {j : Json} (h : j.WellFormed) (hdepth : j.depth + 2 ≤ maxNesting) :
    Expr.parse j.text = .ok (Value.ofJson j).reading := by
  have hlexed := lexedAs_chars j h
  have htaken : (Value.ofJson j).reading.IsTaken :=
    (Expr.takes_lexemes _ (Value.isWritable_reading _ (Value.isFinite_ofJson h))).of_rank_le
      (Nat.zero_le _)
  refine Expr.parse_of_takes hlexed htaken ?_ ?_ ?_
  · have := nesting_reading_le j
    omega
  · rw [Value.operatorCount_reading]
    exact Nat.zero_le _
  · by_contra hblank
    rw [Bool.not_eq_false] at hblank
    obtain ⟨ts, hts, hlexemes⟩ := hlexed 0
    rw [hts.eq_nil_of_blank hblank] at hlexemes
    exact Value.lexemes_reading_ne_nil _ hlexemes.symm

end RuleGraph

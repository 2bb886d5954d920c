import RuleGraph.Proofs.Parsing.Cells
import RuleGraph.Proofs.Parsing.OpenBrackets
import RuleGraph.Proofs.Parsing.RoundTrip
/-!
# Deep nesting

Which texts are refused because too many brackets are open at once. Intervals nest in their ends
without a bound, and behind the operator that begins a cell one more level is allowed.
-/
namespace RuleGraph
open Brackets Lexer

namespace Expr

/-- Arrays, each in the one around it, of which the innermost is empty. -/
def nested : Nat → Expr
  | 0 => .array []
  | n + 1 => .array [nested n]

def nestedText : Nat → List Char
  | 0 => ['[', ']']
  | n + 1 => '[' :: (nestedText n ++ [']'])

theorem nested_lexemes (n : Nat) :
    (nested (n + 1)).lexemes = .openBracket :: ((nested n).lexemes ++ [.closeBracket]) := by
  simp [nested, lexemes, allLexemes, commaSeparated, List.intercalate]

theorem lexedAs_openBracket {cs : List Char} {lexemes : List Lexeme} (h : LexedAs cs lexemes) :
    LexedAs ('[' :: cs) (.openBracket :: lexemes) :=
  h.single (by decide) (.symbol (by decide) (by decide) (by decide +kernel) rfl)

theorem lexedAs_closeBracket {cs : List Char} {lexemes : List Lexeme} (h : LexedAs cs lexemes) :
    LexedAs (']' :: cs) (.closeBracket :: lexemes) :=
  h.single (by decide) (.symbol (by decide) (by decide) (by decide +kernel) rfl)

theorem lexedAs_nested (n : Nat) {cs : List Char} {lexemes : List Lexeme}
    (h : LexedAs cs lexemes) : LexedAs (nestedText n ++ cs) ((nested n).lexemes ++ lexemes) := by
  induction n generalizing cs lexemes with
  | zero => exact lexedAs_openBracket (lexedAs_closeBracket h)
  | succ n ih =>
    rw [nested_lexemes]
    simp only [nestedText, List.cons_append, List.append_assoc, List.nil_append]
    exact lexedAs_openBracket (ih (lexedAs_closeBracket h))

theorem replicate_prefix_nested (n : Nat) (rest : List Lexeme) :
    List.replicate (n + 1) .openBracket <+: (nested n).lexemes ++ rest := by
  induction n generalizing rest with
  | zero => exact ⟨.closeBracket :: rest, rfl⟩
  | succ n ih =>
    rw [nested_lexemes, List.replicate_succ]
    simpa using ih (.closeBracket :: rest)

theorem trim_eq_self {c d : Char} (hc : Text.isBlank c = false) (hd : Text.isBlank d = false)
    (cs : List Char) :
    Text.trim (String.ofList (c :: (cs ++ [d]))) = String.ofList (c :: (cs ++ [d])) := by
  simp [Text.trim, Text.trimChars, hc, hd]

theorem exists_nestedText (n : Nat) : ∃ cs, nestedText n = '[' :: (cs ++ [']']) := by
  cases n with
  | zero => exact ⟨[], rfl⟩
  | succ n => exact ⟨nestedText n, rfl⟩

theorem isPlain_of_hyphen {source : String} (hsource : source = "" ∨ source = "-")
    {tokens : List Token} (htokens : Lexer.tokens source = .ok tokens) :
    ∀ t ∈ tokens.map Token.lexeme, IsPlain t := by
  rcases hsource with rfl | rfl
  · rw [tokens_empty] at htokens
    cases htokens
    simp [IsPlain, step]
  · rw [tokens_hyphen] at htokens
    cases htokens
    simp [IsPlain, step]

/-- An expression is refused if more brackets are open at once than the limit, those aside where
the end of an interval is read. So is a cell, of which only the brackets count that something stands
behind. -/
theorem deep_brackets_refused (source : String) (tokens : List Token) (read : List Lexeme)
    (hread : read <+: tokens.map Token.lexeme) :
    (Lexer.tokens source = .ok tokens → maxNesting < (behind [] read).countP (· ≠ .ending) →
      ∃ x, Expr.parse source = .error x) ∧
    (Lexer.tokens (Text.trim source) = .ok tokens → maxNesting < (behind [] read).count .filled →
      ∃ x, Expr.parseCell source = .error x) := by
  constructor
  · intro htokens hdeep
    cases hparse : Expr.parse source with
    | error x => exact ⟨x, rfl⟩
    | ok e =>
      obtain ⟨tokens', ts, d, htokens', hlexemes, hd, hderives⟩ := derives_of_parse hparse
      obtain rfl : tokens' = tokens := Except.ok.inj (htokens'.symm.trans htokens)
      have hbounded := (hderives.within.bounded_behind (hlexemes ▸ hread)).counted_le
      omega
  · intro htokens hdeep
    cases hparse : Expr.parseCell source with
    | error x => exact ⟨x, rfl⟩
    | ok e =>
      have hbounded : Bounded maxNesting (behind [] read) := by
        rcases derives_of_parseCell hparse with ⟨-, htrim⟩ | ⟨tokens', ts, htokens', hlexemes, h⟩
        · rw [behind_eq_nil fun t ht => isPlain_of_hyphen htrim htokens t (hread.subset ht)]
          exact bounded_nil
        · obtain rfl : tokens' = tokens := Except.ok.inj (htokens'.symm.trans htokens)
          exact h.within.bounded_behind (hlexemes ▸ hread)
      have := hbounded.filled_le
      omega

theorem nested_refused :
    (∃ x, Expr.parse (String.ofList (nestedText 65)) = .error x) ∧
      ∃ x, Expr.parseCell (String.ofList (nestedText 65)) = .error x := by
  obtain ⟨tokens, htokens, hlexemes⟩ := tokens_of_lexedAs (lexedAs_nested 65 lexedAs_nil)
  have hread : List.replicate 66 .openBracket <+: tokens.map Token.lexeme := by
    rw [hlexemes, List.append_assoc]
    exact replicate_prefix_nested 65 _
  have htrim : Text.trim (String.ofList (nestedText 65)) = String.ofList (nestedText 65) :=
    trim_eq_self (by decide) (by decide) (nestedText 64)
  rw [List.append_nil] at htokens
  obtain ⟨hparse, hcell⟩ := deep_brackets_refused (String.ofList (nestedText 65)) tokens _ hread
  exact ⟨hparse htokens (by decide), hcell (htrim.symm ▸ htokens) (by decide)⟩

theorem parse_of_takes {cs : List Char} {lexemes : List Lexeme} {e : Expr} {need count : Nat}
    (hcs : LexedAs cs lexemes) (h : Level.conditional.Takes lexemes e need count)
    (hneed : need + 1 ≤ maxNesting) (hcount : count ≤ maxOperators)
    (hblank : cs.all Text.isBlank = false) : Expr.parse (String.ofList cs) = .ok e := by
  obtain ⟨tokens, htokens, hlexemes⟩ := tokens_of_lexedAs hcs
  have hread := reads_wholeExpression h (c := ⟨tokens, 0⟩) ⟨hlexemes, Nat.zero_le _⟩
  obtain ⟨c, hwhole⟩ := hread.exists_ok hneed (by simpa using hcount)
  exact parse_eq_ok_iff.2 ⟨by simpa [Text.allBlank] using hblank, tokens, c, htokens, hwhole⟩

/-- Intervals, each the end of the one around it. -/
def tower : Nat → Expr
  | 0 => .field ["a"]
  | n + 1 => .interval (.field ["a"]) (tower n) true true

def towerText : Nat → List Char
  | 0 => ['a']
  | n + 1 => '[' :: 'a' :: '.' :: '.' :: (towerText n ++ [']'])

/-- The beginning of a tower, where all its brackets are open. -/
def towerOpening : Nat → List Lexeme
  | 0 => []
  | n + 1 => .openBracket :: .identifier "a" :: .dots :: towerOpening n

theorem tower_lexemes (n : Nat) : (tower (n + 1)).lexemes =
    .openBracket :: .identifier "a" :: .dots :: ((tower n).lexemes ++ [.closeBracket]) := by
  cases n <;> simp [tower, lexemes, enclose, level, Level.rank, List.intercalate]

theorem lexedAs_dots {cs : List Char} {lexemes : List Lexeme} (h : LexedAs cs lexemes) :
    LexedAs ('.' :: '.' :: cs) (.dots :: lexemes) :=
  h.token (by decide) (.symbol (by decide) (by decide) (by decide +kernel) rfl :
    Begins '.' (['.'] ++ cs) .dots ['.'].length)

theorem lexedAs_a {cs : List Char} {lexemes : List Lexeme} (h : LexedAs cs lexemes)
    (hends : cs.takeWhile isNameChar = []) :
    LexedAs ('a' :: cs) (.identifier "a" :: lexemes) := by
  refine h.single (by decide) ?_
  have hbegins : Begins 'a' cs (.ofName (String.ofList ('a' :: cs.takeWhile isNameChar)))
    (cs.takeWhile isNameChar).length := .name (by decide) (by decide) (by decide)
  rw [hends] at hbegins
  exact hbegins

theorem lexedAs_tower (n : Nat) {cs : List Char} {lexemes : List Lexeme} (h : LexedAs cs lexemes)
    (hends : cs.takeWhile isNameChar = []) :
    LexedAs (towerText n ++ cs) ((tower n).lexemes ++ lexemes) := by
  induction n generalizing cs lexemes with
  | zero => exact lexedAs_a h hends
  | succ n ih =>
    have hclose : (']' :: cs).takeWhile isNameChar = [] := by
      have hname : isNameChar ']' = false := by decide +kernel
      simp [hname]
    have hdot : isNameChar '.' = false := by decide +kernel
    have hinner := ih (lexedAs_closeBracket h) hclose
    rw [tower_lexemes]
    simp only [towerText, List.cons_append, List.append_assoc, List.nil_append]
    exact lexedAs_openBracket (lexedAs_a (lexedAs_dots hinner) (by simp [hdot]))

theorem isWritable_tower (n : Nat) : (tower n).IsWritable := by
  induction n with
  | zero => simp [tower, IsWritable]
  | succ n ih => exact ⟨by simp [IsWritable], ih⟩

theorem nesting_tower_le (n : Nat) : (tower n).nesting ≤ 1 := by
  induction n with
  | zero => simp [tower, nesting]
  | succ n ih => cases n <;> simp_all [tower, nesting, encloseNesting, level, Level.rank]

theorem operatorCount_tower (n : Nat) : (tower n).operatorCount = 0 := by
  induction n with
  | zero => rfl
  | succ n ih => simpa [tower, operatorCount] using ih

theorem parse_tower (n : Nat) : Expr.parse (String.ofList (towerText n)) = .ok (tower n) := by
  have hlexed := lexedAs_tower n lexedAs_nil rfl
  rw [List.append_nil, List.append_nil] at hlexed
  have htaken : (tower n).IsTaken :=
    (takes_lexemes (tower n) (isWritable_tower n)).of_rank_le (Nat.zero_le _)
  refine parse_of_takes hlexed htaken ?_ ?_ ?_
  · exact (Nat.succ_le_succ (nesting_tower_le n)).trans (by decide)
  · rw [operatorCount_tower]
    exact Nat.zero_le _
  · cases n <;> rfl

theorem towerOpening_prefix (n : Nat) (rest : List Lexeme) :
    towerOpening n <+: (tower n).lexemes ++ rest := by
  induction n generalizing rest with
  | zero => exact List.nil_prefix
  | succ n ih =>
    rw [tower_lexemes]
    simpa [towerOpening] using ih (.closeBracket :: rest)

theorem length_fill (stack : List BracketStage) : (fill stack).length = stack.length := by
  cases stack with
  | nil => rfl
  | cons stage outer => cases stage <;> rfl

theorem length_behind_towerOpening (n : Nat) (stack : List BracketStage) :
    (behind stack (towerOpening n)).length = stack.length + n := by
  induction n generalizing stack with
  | zero => rfl
  | succ n ih =>
    have hone : behind stack [.openBracket, .identifier "a", .dots] = .ending :: fill stack := rfl
    have hopening : towerOpening (n + 1) =
      [.openBracket, .identifier "a", .dots] ++ towerOpening n := rfl
    rw [hopening, behind_append, hone, ih, List.length_cons, length_fill]
    omega

theorem isWritable_nested (n : Nat) : (nested n).IsWritable := by
  induction n with
  | zero => simp [nested, IsWritable, AllWritable]
  | succ n ih => simpa [nested, IsWritable, AllWritable] using ih

theorem nesting_nested (n : Nat) : (nested n).nesting = n := by
  induction n with
  | zero => rfl
  | succ n ih => simp [nested, nesting, allNesting, ih]

theorem operatorCount_nested (n : Nat) : (nested n).operatorCount = 0 := by
  induction n with
  | zero => rfl
  | succ n ih => simp [nested, operatorCount, allOperatorCount, ih]

theorem lexedAs_greater {cs : List Char} {lexemes : List Lexeme} (h : LexedAs cs lexemes) :
    LexedAs ('>' :: ' ' :: cs) (.greater :: lexemes) :=
  (h.blank (by decide)).single (by decide)
    (.symbol (by decide) (by decide) (by decide +kernel) rfl)

theorem trim_nestedCell (n : Nat) :
    Text.trim (String.ofList ('>' :: ' ' :: nestedText n)) =
      String.ofList ('>' :: ' ' :: nestedText n) := by
  obtain ⟨cs, hcs⟩ := exists_nestedText n
  rw [hcs]
  exact trim_eq_self (by decide) (by decide) (' ' :: '[' :: cs)

theorem tokens_nestedCell (n : Nat) :
    ∃ tokens, Lexer.tokens (String.ofList ('>' :: ' ' :: nestedText n)) = .ok tokens ∧
      tokens.map Token.lexeme = .greater :: (nested n).lexemes ++ [.eof] := by
  have hlexed := lexedAs_greater (lexedAs_nested n lexedAs_nil)
  rw [List.append_nil, List.append_nil] at hlexed
  exact tokens_of_lexedAs hlexed

theorem parseCell_nested {n : Nat} (hn : n ≤ maxNesting) :
    Expr.parseCell (String.ofList ('>' :: ' ' :: nestedText n)) =
      .ok (.binary .subject .gt (nested n)) := by
  obtain ⟨tokens, htokens, hlexemes⟩ := tokens_nestedCell n
  have hlevel : (nested n).level = .atom := by cases n <;> rfl
  have htaken : Level.sum.Takes (nested n).lexemes (nested n) n 0 := by
    have h := takes_lexemes (nested n) (isWritable_nested n)
    rw [nesting_nested, operatorCount_nested, hlevel] at h
    exact h.of_rank_le (by decide)
  have hc : Cursor.At ⟨tokens, 0⟩ (Operator.gt.lexemes ++ (nested n).lexemes) :=
    ⟨hlexemes, Nat.zero_le _⟩
  obtain ⟨c, hwhole⟩ :=
    (Parser.reads_wholeCell_comparison rfl htaken hc).exists_ok hn (Nat.zero_le _)
  have hempty : ¬ (String.ofList ('>' :: ' ' :: nestedText n) = "" ∨
      String.ofList ('>' :: ' ' :: nestedText n) = "-") := by
    rintro (h | h) <;> simpa using congrArg String.toList h
  simp only [Expr.parseCell, trim_nestedCell, if_neg hempty, htokens, ok_bind, hwhole]
  rfl

theorem length_behind_replicate (n : Nat) (stack : List BracketStage) :
    (behind stack (List.replicate n .openBracket)).length = stack.length + n := by
  induction n generalizing stack with
  | zero => rfl
  | succ n ih =>
    have hstep : Brackets.step stack .openBracket = .opened :: fill stack := rfl
    rw [List.replicate_succ, behind_cons, ih, hstep, List.length_cons, length_fill]
    omega

/-- However high a tower is, all of its brackets are open at once and it is parsed. -/
theorem tower_accepted (n : Nat) :
    ∃ tokens read, Lexer.tokens (String.ofList (towerText n)) = .ok tokens ∧
      read <+: tokens.map Token.lexeme ∧ (behind [] read).length = n ∧
      Expr.parse (String.ofList (towerText n)) = .ok (tower n) := by
  obtain ⟨tokens, htokens, hlexemes⟩ := tokens_of_lexedAs (lexedAs_tower n lexedAs_nil rfl)
  rw [List.append_nil] at htokens
  refine ⟨tokens, towerOpening n, htokens, ?_, ?_, parse_tower n⟩
  · rw [hlexemes, List.append_assoc]
    exact towerOpening_prefix n _
  · simpa using length_behind_towerOpening n []

theorem nestedCell_accepted {n : Nat} (hn : n ≤ maxNesting) :
    ∃ tokens read, Lexer.tokens (Text.trim (String.ofList ('>' :: ' ' :: nestedText n))) =
        .ok tokens ∧
      read <+: tokens.map Token.lexeme ∧ (behind [] read).length = n + 1 ∧
      Expr.parseCell (String.ofList ('>' :: ' ' :: nestedText n)) =
        .ok (.binary .subject .gt (nested n)) := by
  obtain ⟨tokens, htokens, hlexemes⟩ := tokens_nestedCell n
  refine ⟨tokens, .greater :: List.replicate (n + 1) .openBracket, ?_, ?_, ?_,
    parseCell_nested hn⟩
  · rw [trim_nestedCell, htokens]
  · rw [hlexemes, List.cons_append]
    exact List.cons_prefix_cons.2 ⟨rfl, replicate_prefix_nested n _⟩
  · have hstep : Brackets.step [] .greater = [] := rfl
    rw [behind_cons, hstep, length_behind_replicate, List.length_nil, Nat.zero_add]

/-- More brackets than the limit can be open without an error: in the ends of intervals, and behind
the operator that begins a cell. -/
theorem uncounted_brackets_accepted :
    (∃ tokens read, Lexer.tokens (String.ofList (towerText 65)) = .ok tokens ∧
      read <+: tokens.map Token.lexeme ∧ maxNesting < (behind [] read).length ∧
      Expr.parse (String.ofList (towerText 65)) = .ok (tower 65)) ∧
    (∃ tokens read,
      Lexer.tokens (Text.trim (String.ofList ('>' :: ' ' :: nestedText 64))) = .ok tokens ∧
      read <+: tokens.map Token.lexeme ∧ maxNesting < (behind [] read).length ∧
      Expr.parseCell (String.ofList ('>' :: ' ' :: nestedText 64)) =
        .ok (.binary .subject .gt (nested 64))) := by
  obtain ⟨tokens, read, htokens, hread, hopen, hparse⟩ := tower_accepted 65
  obtain ⟨tokens', read', htokens', hread', hopen', hparse'⟩ :=
    nestedCell_accepted (n := 64) (Nat.le_refl _)
  refine ⟨⟨tokens, read, htokens, hread, ?_, hparse⟩, tokens', read', htokens', hread', ?_, hparse'⟩
  · rw [hopen]
    exact Nat.lt_succ_self maxNesting
  · rw [hopen']
    exact Nat.lt_succ_self maxNesting

end Expr
end RuleGraph

import RuleGraph.Proofs.Parsing.Alternatives
import RuleGraph.Proofs.Parsing.Completeness
/-!
# Reading cells

What the parser of cells makes of expressions, of expressions with commas between them, and of
comparisons that begin with their operator.
-/
namespace RuleGraph
open RuleGraph.Parser Level

variable {c : Cursor} {e : Expr} {ts rest : List Lexeme} {fuel depth m n m' n' : Nat}

theorem Cursor.head_next (h : c.second ≠ .eof) : c.next.head = c.second := by
  obtain ⟨tokens, operators⟩ := c
  match tokens with
  | [] | [_] => exact absurd rfl h
  | _ :: _ :: _ => rfl

namespace Level

theorem Takes.head_isComparison (h : Level.conditional.Takes ts e m n) (hc : c.At (ts ++ rest))
    (hrest : Level.conditional.EndsAt rest) : c.head.isComparison = false := by
  rw [← Bool.not_eq_true]
  intro hcomparison
  refine h.not_refused hc hrest fun inner => ?_
  rw [primary, Parser.signed, peek_bind, peek_bind]
  cases hhead : c.head <;>
    first | exact ⟨rfl, rfl⟩ | (rw [hhead] at hcomparison; cases hcomparison)

theorem Takes.membershipChoice_eq_none (h : Level.conditional.Takes ts e m n)
    (hc : c.At (ts ++ rest)) (hrest : Level.conditional.EndsAt rest) :
    membershipChoice c = none := by
  rcases hchoice : membershipChoice c with _ | ⟨op, double⟩
  · rfl
  exfalso
  unfold membershipChoice at hchoice
  split at hchoice
  · next hhead =>
    refine h.not_refused hc hrest fun inner => ?_
    rw [primary, Parser.signed, peek_bind, peek_bind, hhead]
    exact ⟨rfl, rfl⟩
  · next hhead hsecond =>
    -- The word `not` is taken for a sign, and no operand begins with `in`.
    have hnext : c.next.head = .inWord := by
      rw [Cursor.head_next (by simp [hsecond]), hsecond]
    have hrefused : primary (inner ts.length 0) c.next = refuse .expression c.next := by
      rw [primary, peek_bind, hnext]
      rfl
    have hoperand : Parser.signed (inner ts.length 0) c.next = refuse .expression c.next := by
      refine parser_eq_error (L := .sign) (K := .atom) hrefused (by decide) (.inr (.inr ?_))
      rw [Parser.signed, peek_bind, hnext]
    have hsigned : Parser.signed (inner (ts.length + 1) 1) c = refuse .expression c.next := by
      rw [Parser.signed, peek_bind, hhead]
      change (Parser.signed (inner ts.length 0) c.next >>= fun r => _) = _
      rw [hoperand]
      rfl
    exact (h.reads hc hrest (Nat.le_succ _)).ne_unexpected c.next .expression
      (parser_eq_error (L := .conditional) (K := .sign) hsigned (by decide)
        (.inr (.inl (Nat.le_refl _))))
  · cases hchoice

end Level

namespace Parser

theorem reads_cellItem (h : Level.conditional.Takes ts e m n) (hc : c.At (ts ++ rest))
    (hrest : Level.conditional.EndsAt rest) (hfuel : ts.length < fuel) :
    Reads (cellItem (inner fuel depth)) c (testOf e) rest depth (m + 1) n := by
  have hitem : cellItem (inner fuel depth) c =
      (do return testOf (← (inner fuel depth).expression) : Parser Expr) c := by
    rw [cellItem, get_bind, h.head_isComparison hc hrest, h.membershipChoice_eq_none hc hrest]
    rfl
  refine Meets.of_eq hitem rfl ?_
  exact (h.reads_expression hc hrest hfuel).bind_at fun c' hc' _ => ⟨c', hc', rfl, rfl⟩

theorem reads_level_of_none {choice : Choice} {operand : Parser Expr}
    (h : Reads operand c e rest depth m n) (hnone : ∀ c' : Cursor, c'.At rest → choice c' = none) :
    Reads (Parser.level choice operand) c e rest depth m n :=
  h.bind_at fun c' hc' _ =>
    ⟨c', hc', rfl, Level.chain_of_choice_eq_none (hnone c' hc') operand maxOperators e⟩

theorem reads_chain_succ {choice : Choice} {operand : Parser Expr} {op : Operator} {t : Lexeme}
    {left right result : Expr} {limit : Nat} (hc : c.At (t :: ts))
    (hchoice : choice c = some (op, false))
    (hright : ∀ c' : Cursor, c'.At ts → Reads operand c' right rest depth m n)
    (hmore : ∀ c' : Cursor, c'.At rest → c.operators < c'.operators →
      Reads (chain choice operand limit (.binary left op right)) c' result [] depth m' n') :
    Reads (chain choice operand (limit + 1) left) c result [] depth (max m m') (1 + (n + n')) := by
  have hstep : chain choice operand (limit + 1) left c = (do
      countOperator
      let right ← operand
      chain choice operand limit (.binary left op right) : Parser Expr) c.next := by
    rw [chain, get_bind, hchoice]
    rfl
  refine Meets.of_eq hstep (Cursor.next_operators c) ?_
  refine Meets.congr ?_ (Nat.zero_max _) rfl
  refine (reads_countOperator hc.next).bind fun c₁ hc₁ hcount₁ => ?_
  rw [Cursor.next_operators] at hcount₁
  exact (hright c₁ hc₁).bind fun c₂ hc₂ hcount₂ => hmore c₂ hc₂ (by omega)

theorem commaChoice_eq_none (hc : c.At []) : commaChoice c = none := by
  rw [commaChoice, hc.head_eq]
  rfl

theorem endsAt_behindCommas (tss : List (List Lexeme)) :
    Level.conditional.EndsAt (afterCommas tss) := by
  have hends := endsAt_afterCommas (endsAt_nil .conditional) tss
  rwa [List.append_nil] at hends

theorem reads_alternatives {tss : List (List Lexeme)} {es : List Expr} (h : TakenAll tss es m n)
    (hc : c.At (afterCommas tss)) (hfuel : (afterCommas tss).length ≤ fuel) {limit : Nat}
    (hlimit : maxOperators < limit + c.operators) (left : Expr) :
    Reads (chain commaChoice (cellItem (inner fuel depth)) limit left) c
      (CellItem.anyOf left (es.map testOf)) [] depth m (n + es.length) := by
  have hmax := hc.operators_le
  obtain ⟨limit, rfl⟩ : ∃ k, limit = k + 1 := ⟨limit - 1, by omega⟩
  induction h generalizing c limit left with
  | nil =>
    exact meets_of_at hc rfl (Level.chain_of_choice_eq_none (commaChoice_eq_none hc) _ _ _)
  | @cons ts tss e es m n m' n' h hs ih =>
    rw [afterCommas_cons] at hc hfuel
    rw [List.length_cons, List.length_append] at hfuel
    have hends := endsAt_behindCommas tss
    have hcomma : commaChoice c = some (.or, false) := by
      rw [commaChoice, hc.head]
    have hcount : 1 + (n + (n' + es.length)) = n + n' + (e :: es).length := by
      rw [List.length_cons]
      omega
    refine (reads_chain_succ hc hcomma (fun c' hc' => reads_cellItem h hc' hends (by omega))
      fun c' hc' hless => ?_).congr rfl hcount
    have hmax' := hc'.operators_le
    obtain ⟨limit, rfl⟩ : ∃ k, limit = k + 1 := ⟨limit - 1, by omega⟩
    exact ih hc' (by omega) (.binary left .or (testOf e)) hmax' limit (by omega)

theorem reads_wholeCell
    (h : Reads (level commaChoice (cellItem (inner c.tokens.length maxNesting))) c e [] maxNesting
      m n) : Reads wholeCell c e [] maxNesting m n := by
  refine Meets.of_eq (left_bind _ _) rfl ?_
  refine h.bind_at fun c' hc' _ => ⟨c', hc', rfl, ?_⟩
  rw [expectEnd, bind_assoc, peek_bind, hc'.head_eq]
  rfl

theorem reads_wholeCell_of_item
    (h : Reads (cellItem (inner c.tokens.length maxNesting)) c e [] maxNesting m n) :
    Reads wholeCell c e [] maxNesting m n :=
  reads_wholeCell (reads_level_of_none h fun _ => commaChoice_eq_none)

/-- A cell of expressions with commas between them is the alternatives of their tests. -/
theorem reads_wholeCell_commaSeparated {tss : List (List Lexeme)} {es : List Expr}
    (h : Level.conditional.Takes ts e m n) (hs : TakenAll tss es m' n')
    (hc : c.At (commaSeparated (ts :: tss))) :
    Reads wholeCell c (CellItem.anyOf (testOf e) (es.map testOf)) [] maxNesting (max (m + 1) m')
      (n + (n' + es.length)) := by
  rw [commaSeparated_cons] at hc
  have hlength := hc.length
  rw [List.length_append] at hlength
  have hends := endsAt_behindCommas tss
  exact reads_wholeCell ((reads_cellItem h hc hends (by omega)).bind fun c' hc' _ =>
    reads_alternatives hs hc' (by omega) (by omega) (testOf e))

theorem reads_subjectComparison {op : Operator} (hop : op.isComparison)
    (h : Level.sum.Takes ts e m n) (hc : c.At (op.lexemes ++ (ts ++ rest)))
    (hrest : Level.sum.EndsAt rest) (hfuel : ts.length ≤ fuel) :
    Reads (subjectComparison (inner fuel depth)) c (.binary .subject op e) rest depth m n := by
  obtain ⟨t, ht⟩ : ∃ t, op.lexemes = [t] := by
    cases op <;> first | exact ⟨_, rfl⟩ | cases hop
  rw [ht, List.singleton_append] at hc
  have hbegin : subjectComparison (inner fuel depth) c =
      (do return .binary .subject op (← sum (inner fuel depth)) : Parser Expr) c.next := by
    rw [subjectComparison, peek_bind, hc.head]
    cases op <;> first | (cases ht; rfl) | cases hop
  refine Meets.of_eq hbegin (Cursor.next_operators c) ?_
  exact (h.reads hc.next hrest hfuel).bind_at fun c' hc' _ => ⟨c', hc', rfl, rfl⟩

theorem beforeComparison_eq_none (choice : Choice) (hc : c.At []) :
    beforeComparison choice c = none := by
  rw [beforeComparison, hc.second_eq]
  rfl

theorem cellItem_of_isComparison {op : Operator} (hop : op.isComparison)
    (hc : c.At (op.lexemes ++ rest)) (inner : Inner) :
    cellItem inner c = subjectComparisons inner c := by
  have hhead : c.head.isComparison := by
    rw [hc.head_eq]
    cases op <;> first | rfl | cases hop
  rw [cellItem, get_bind, if_pos hhead]

theorem reads_wholeCell_comparison {op : Operator} (hop : op.isComparison)
    (h : Level.sum.Takes ts e m n) (hc : c.At (op.lexemes ++ ts)) :
    Reads wholeCell c (.binary .subject op e) [] maxNesting m n := by
  have hlength := hc.length
  rw [List.length_append] at hlength
  refine reads_wholeCell_of_item (Meets.of_eq (cellItem_of_isComparison hop hc _) rfl ?_)
  have hc' : c.At (op.lexemes ++ (ts ++ [])) := by rwa [List.append_nil]
  refine reads_level_of_none (reads_level_of_none ?_ fun _ => beforeComparison_eq_none andChoice)
    fun _ => beforeComparison_eq_none orChoice
  exact reads_subjectComparison hop h hc' (endsAt_nil _) (by omega)

theorem reads_wholeCell_and {op op' : Operator} (hop : op.isComparison) (hop' : op'.isComparison)
    {ts' tm : List Lexeme} {e' : Expr} (htm : tm ∈ Operator.and.spellings)
    (h : Level.sum.Takes ts e m n) (h' : Level.sum.Takes ts' e' m' n')
    (hc : c.At (op.lexemes ++ (ts ++ (tm ++ (op'.lexemes ++ ts'))))) :
    Reads wholeCell c (.binary (.binary .subject op e) .and (.binary .subject op' e')) []
      maxNesting (max m m') (n + (1 + n')) := by
  have hlength := hc.length
  simp only [List.length_append] at hlength
  have hends : Level.sum.EndsAt (tm ++ (op'.lexemes ++ ts')) :=
    endsAt_spelling htm (by decide) _
  refine reads_wholeCell_of_item (Meets.of_eq (cellItem_of_isComparison hop hc _) rfl ?_)
  refine reads_level_of_none ?_ fun _ => beforeComparison_eq_none orChoice
  refine ((reads_subjectComparison hop h hc hends (by omega)).bind fun c' hc' _ => ?_)
  obtain ⟨t, rfl⟩ : ∃ t, tm = [t] := by
    simp only [Operator.spellings, List.mem_cons, List.not_mem_nil, or_false] at htm
    rcases htm with rfl | rfl <;> exact ⟨_, rfl⟩
  have hchoice : beforeComparison andChoice c' = some (.and, false) := by
    have hsecond : c'.second.isComparison := by
      rw [hc'.second_eq]
      cases op' <;> first | rfl | cases hop'
    rw [beforeComparison, if_pos hsecond]
    have hand : Operator.and ≠ .pow := by decide
    exact choice_of_op hand htm hc'
  have hright (c₁ : Cursor) (hc₁ : c₁.At (op'.lexemes ++ ts')) :
      Reads (subjectComparison (inner c.tokens.length maxNesting)) c₁ (.binary .subject op' e') []
        maxNesting m' n' := by
    rw [← List.append_nil ts'] at hc₁
    exact reads_subjectComparison hop' h' hc₁ (endsAt_nil _) (by omega)
  exact (reads_chain_succ hc' hchoice hright fun c₁ hc₁ _ => meets_of_at hc₁ rfl
    (Level.chain_of_choice_eq_none (beforeComparison_eq_none _ hc₁) _ _ _)).congr
      (Nat.max_zero _) rfl

end Parser

namespace Expr

/-- The text of a cell is cut into the tokens. -/
def IsCutInto (source : String) (ts : List Lexeme) : Prop :=
  ∃ tokens, Lexer.tokens (Text.trim source) = .ok tokens ∧ tokens.map Token.lexeme = ts ++ [.eof]

/-- The text of a cell is parsed as a test if it fits into the limits of the parser, and is refused
for one of them otherwise. -/
def ParsesCell (source : String) (test : Expr) (fits : Prop) : Prop :=
  (fits → parseCell source = .ok test) ∧
    (¬fits → ∃ limit : ParseError, limit.IsLimit ∧ parseCell source = .error limit)

theorem parsesCell_of_reads {source : String} {fits : Prop} (hcut : IsCutInto source ts)
    (h : ∀ c : Cursor, c.At ts → Reads wholeCell c e [] maxNesting m n)
    (hfits : fits ↔ m ≤ maxNesting ∧ n ≤ maxOperators) : ParsesCell source e fits := by
  obtain ⟨tokens, htokens, hlexemes⟩ := hcut
  have hread := h ⟨tokens, 0⟩ ⟨hlexemes, Nat.zero_le _⟩
  have hempty : Text.trim source ≠ "" := by
    intro hempty
    rw [hempty, Lexer.tokens_empty] at htokens
    obtain rfl := Except.ok.inj htokens
    exact hread.ne_unexpected ⟨[⟨.eof, 0⟩], 0⟩ .expression rfl
  have hhyphen : Text.trim source ≠ "-" := by
    intro hhyphen
    rw [hhyphen, Lexer.tokens_hyphen] at htokens
    obtain rfl := Except.ok.inj htokens
    exact hread.ne_unexpected ⟨[⟨.eof, 1⟩], 0⟩ .expression rfl
  rw [ParsesCell, parseCell_of_tokens hempty hhyphen htokens, hfits]
  unfold Reads Meets at hread
  rw [Nat.zero_add] at hread
  split at hread
  · next hroom =>
    obtain ⟨c, -, -, hread⟩ := hread
    exact ⟨fun _ => congrArg (Except.map Prod.fst) hread, fun hbeyond => absurd hroom hbeyond⟩
  · next hbeyond =>
    obtain ⟨limit, hread, hlimit⟩ := hread
    exact ⟨fun hroom => absurd hroom hbeyond,
      fun _ => ⟨limit, hlimit, congrArg (Except.map Prod.fst) hread⟩⟩

theorem exists_takenAll {tss : List (List Lexeme)} {es : List Expr}
    (h : List.Forall₂ Level.conditional.Spells tss es) :
    ∃ need, TakenAll tss es need (allOperatorCount es) ∧
      (allOperatorCount es ≤ maxOperators → ∀ depth, need ≤ depth + 1 ↔
        List.Forall₂ (Level.conditional.SpellsWithin depth) tss es) := by
  induction h with
  | nil => exact ⟨0, .nil, fun _ depth => by simp⟩
  | cons h _ ih =>
    obtain ⟨m, h, hwithin⟩ := h.exists_takes
    obtain ⟨m', hs, hswithin⟩ := ih
    refine ⟨_, .cons h hs, fun hcount depth => ?_⟩
    rw [allOperatorCount] at hcount
    rw [List.forall₂_cons, ← hwithin (by omega), ← hswithin (by omega)]
    omega

end Expr
end RuleGraph

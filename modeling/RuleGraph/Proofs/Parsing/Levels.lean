import RuleGraph.Proofs.Parsing.Grammar
import RuleGraph.Proofs.Parsing.Lexing
import RuleGraph.Proofs.Parsing.Reading
/-!
# What the levels of the grammar read

A level takes tokens for an expression if its parser, wherever it comes to them, makes the
expression of them and goes on from there. What a tighter level takes, the looser ones take too, and
in parentheses every level takes what the loosest one does.
-/
namespace RuleGraph
open RuleGraph.Parser

/-- The level that a token continues, which for `not` depends on the token behind it. -/
def Lexeme.continued (t next : Lexeme) : Option Level :=
  match t, next with
  | .question, _ => some .conditional
  | .questions, _ => some .coalescence
  | .orWord, _ | .orOr, _ => some .disjunction
  | .andWord, _ | .andAnd, _ => some .conjunction
  | .equal, _ | .notEqual, _ => some .equality
  | .less, _ | .lessEqual, _ | .greater, _ | .greaterEqual, _ => some .order
  | .inWord, _ | .notWord, .inWord => some .membership
  | .plus, _ | .minus, _ => some .sum
  | .star, _ | .slash, _ | .percent, _ => some .product
  | .caret, _ => some .power
  | .dot, _ | .openBracket, _ => some .access
  | .openParen, _ => some .atom
  | _, _ => none

namespace Level
variable {L : Level}

/-- What follows continues neither the level nor a tighter one. -/
def EndsAt (L : Level) (rest : List Lexeme) : Prop :=
  ∀ K : Level, (rest.headD .eof).continued (rest.tail.headD .eof) = some K → K.rank < L.rank

theorem EndsAt.of_rank_le {K : Level} {rest : List Lexeme} (h : L.EndsAt rest)
    (hle : L.rank ≤ K.rank) : K.EndsAt rest :=
  fun M hM => Nat.lt_of_lt_of_le (h M hM) hle

theorem endsAt_nil (L : Level) : L.EndsAt [] := fun K hK => by cases hK

theorem rank_le_tighter (L : Level) : L.rank ≤ L.tighter.rank := by
  cases L <;> decide

theorem eq_of_rank_eq {K : Level} (h : K.rank = L.rank) : K = L := by
  cases K <;> cases L <;> first | rfl | cases h

theorem rank_tighter_le (L : Level) : L.tighter.rank ≤ L.rank + 1 := by
  cases L <;> decide

def choice : Level → Choice
  | coalescence => coalesceChoice
  | disjunction => orChoice
  | conjunction => andChoice
  | equality => equalityChoice
  | order => orderChoice
  | membership => membershipChoice
  | sum => sumChoice
  | product => productChoice
  | _ => fun _ => none

def isChain : Level → Bool
  | coalescence | disjunction | conjunction | equality | order | membership | sum | product => true
  | _ => false

theorem EndsAt.continued_ne {c : Cursor} {rest : List Lexeme} (h : L.EndsAt rest)
    (hc : c.At rest) : c.head.continued c.second ≠ some L := fun hL =>
  Nat.lt_irrefl _ (h L (by rw [← hc.head_eq, ← hc.second_eq, hL]))

theorem choice_eq_none {c : Cursor} {rest : List Lexeme} (hc : c.At rest) (h : L.EndsAt rest) :
    L.choice c = none := by
  have hother := h.continued_ne hc
  cases L <;>
    simp only [choice, coalesceChoice, orChoice, andChoice, equalityChoice, orderChoice,
      membershipChoice, sumChoice, productChoice] <;>
    split <;> simp_all [Lexeme.continued]

theorem choice_of_op {op : Operator} (hop : op ≠ .pow) {tm : List Lexeme}
    (htm : tm ∈ op.spellings) {c : Cursor} {rest : List Lexeme} (hc : c.At (tm ++ rest)) :
    op.level.choice c = some (op, decide (op = .notMember)) := by
  have hhead := hc.head_eq
  have hsecond := hc.second_eq
  cases op
  case and | or =>
    simp only [Operator.spellings, List.mem_cons, List.not_mem_nil, or_false] at htm
    rcases htm with rfl | rfl <;> simp_all [Operator.level, choice, andChoice, orChoice]
  all_goals
    obtain rfl := List.mem_singleton.1 htm
    simp_all [Operator.lexemes, Operator.level, choice, coalesceChoice, equalityChoice,
      orderChoice, membershipChoice, sumChoice, productChoice]

def parser (inner : Inner) : Level → Parser Expr
  | conditional => Parser.conditional inner
  | coalescence => Parser.coalescence inner
  | disjunction => Parser.disjunction inner
  | conjunction => Parser.conjunction inner
  | equality => Parser.equality inner
  | order => Parser.order inner
  | membership => Parser.membership inner
  | sum => Parser.sum inner
  | product => Parser.product inner
  | sign => Parser.signed inner
  | power => Parser.power inner
  | access => Parser.access inner
  | atom => Parser.primary inner

theorem parser_of_isChain (h : L.isChain) (inner : Inner) :
    L.parser inner = Parser.level L.choice (L.tighter.parser inner) := by
  cases L <;> first | rfl | cases h

/-- Induction from what stands alone to looser and looser levels. -/
theorem downward {P : Level → Prop} (hatom : P .atom) (hstep : ∀ L : Level, P L.tighter → P L)
    (L : Level) : P L := by
  have haccess := hstep .access hatom
  have hpower := hstep .power haccess
  have hsign := hstep .sign hpower
  have hproduct := hstep .product hsign
  have hsum := hstep .sum hproduct
  have hmembership := hstep .membership hsum
  have horder := hstep .order hmembership
  have hequality := hstep .equality horder
  have hconjunction := hstep .conjunction hequality
  have hdisjunction := hstep .disjunction hconjunction
  have hcoalescence := hstep .coalescence hdisjunction
  have hconditional := hstep .conditional hcoalescence
  cases L <;> assumption

/-- Every level first reads what is tighter, unless a sign comes first. -/
theorem parser_eq_bind (hsign : L ≠ .sign) (hatom : L ≠ .atom) (inner : Inner) :
    ∃ f : Expr → Parser Expr, L.parser inner = L.tighter.parser inner >>= f := by
  cases L <;> first | exact ⟨_, rfl⟩ | contradiction

theorem parser_eq_error {inner : Inner} {c : Cursor} {x : ParseError} {K : Level}
    (h : K.parser inner c = .error x) (hLK : L.rank ≤ K.rank)
    (hsign : Level.power.rank ≤ L.rank ∨ K.rank ≤ Level.sign.rank ∨
      Parser.signed inner c = Parser.power inner c) :
    L.parser inner c = .error x := by
  induction L using downward with
  | hatom => rwa [eq_of_rank_eq (Nat.le_antisymm hLK (by cases K <;> decide))]
  | hstep L ih =>
    by_cases heq : L.rank = K.rank
    · rwa [eq_of_rank_eq heq]
    · have hle := L.rank_le_tighter
      have hstep := L.rank_tighter_le
      have htighter := ih (by omega) (hsign.imp_left fun hpower => Nat.le_trans hpower hle)
      by_cases hL : L = .sign
      · subst hL
        have hsigned := (hsign.resolve_left (by decide)).resolve_left fun hK => heq (by omega)
        exact hsigned.trans htighter
      · have hatom : L ≠ .atom := by
          rintro rfl
          exact heq (Nat.le_antisymm hLK (by cases K <;> decide))
        obtain ⟨f, hf⟩ := parser_eq_bind hL hatom inner
        rw [hf]
        change (L.tighter.parser inner c >>= fun r => f r.1 r.2) = _
        rw [htighter]
        rfl

def resume (inner : Inner) (L : Level) (fuel : Nat) (e : Expr) : Parser Expr :=
  if L = .access then accessRest inner fuel e else chain L.choice (L.tighter.parser inner) fuel e

/-- The fuel is enough to go on until the level ends. -/
def Enough (L : Level) (fuel : Nat) (c : Cursor) : Prop :=
  if L = .access then c.tokens.length ≤ fuel else maxOperators < fuel + c.operators

theorem chain_of_choice_eq_none {choice : Choice} {c : Cursor} (h : choice c = none)
    (operand : Parser Expr) (fuel : Nat) (e : Expr) :
    chain choice operand (fuel + 1) e c = .ok (e, c) := by
  rw [chain, get_bind, h]
  rfl

theorem resume_of_endsAt {c : Cursor} {rest : List Lexeme} (hc : c.At rest) (h : L.EndsAt rest)
    (inner : Inner) (fuel : Nat) (e : Expr) : L.resume inner fuel e c = .ok (e, c) := by
  unfold resume
  cases fuel with
  | zero => split <;> rfl
  | succ fuel =>
    split
    · rename_i hL
      subst hL
      have hother := h.continued_ne hc
      rw [accessRest, peek_bind]
      cases hhead : c.head <;> first | rfl | simp [hhead, Lexeme.continued] at hother
    · exact chain_of_choice_eq_none (choice_eq_none hc h) _ _ _

/-- The level that must end behind an expression of this level. In a chain the level itself may
go on. -/
def boundary (L : Level) : Level :=
  if L.isChain ∨ L = .access then L.tighter else L

/-- The parser of the level makes `e` of the tokens and goes on from there. -/
def Takes (L : Level) (ts : List Lexeme) (e : Expr) (need count : Nat) : Prop :=
  ∀ ⦃fuel depth : Nat⦄ ⦃c : Cursor⦄ ⦃rest : List Lexeme⦄, c.At (ts ++ rest) →
    L.boundary.EndsAt rest → ts.length ≤ fuel →
      Meets (fun outcome c' => ∃ k, L.Enough k c' ∧
        outcome = L.resume (inner fuel depth) k e c') (L.parser (inner fuel depth)) c rest depth
        need count

variable {ts rest : List Lexeme} {e : Expr} {need count fuel depth : Nat} {c : Cursor}

theorem boundary_eq (h : L.isChain = false) (hL : L ≠ .access) : L.boundary = L := by
  simp [boundary, h, hL]

theorem rank_le_boundary (L : Level) : L.rank ≤ L.boundary.rank := by
  cases L <;> decide

/-- Where the level ends, its parser reads no more than the expression. -/
theorem Takes.reads (h : L.Takes ts e need count) (hc : c.At (ts ++ rest)) (hrest : L.EndsAt rest)
    (hfuel : ts.length ≤ fuel) :
    Reads (L.parser (inner fuel depth)) c e rest depth need count :=
  (h hc (hrest.of_rank_le L.rank_le_boundary) hfuel).imp fun c' hc' ⟨k, _, hk⟩ => by
    rw [hk, resume_of_endsAt hc' hrest]

/-- A level that never goes on behind an expression takes what it reads. -/
theorem takes_of_reads (hchain : L.isChain = false) (hL : L ≠ .access)
    (h : ∀ ⦃fuel depth : Nat⦄ ⦃c : Cursor⦄ ⦃rest : List Lexeme⦄, c.At (ts ++ rest) →
      L.EndsAt rest → ts.length ≤ fuel →
        Reads (L.parser (inner fuel depth)) c e rest depth need count) :
    L.Takes ts e need count := by
  intro fuel depth c rest hc hrest hfuel
  rw [boundary_eq hchain hL] at hrest
  refine (h hc hrest hfuel).imp fun c' hc' hread => ⟨maxOperators + 1, ?_, ?_⟩
  · rw [Enough, if_neg hL]
    omega
  · rw [hread, resume_of_endsAt hc' hrest]

theorem signed_eq_power {inner : Inner}
    (h : Reads (Parser.power inner) c e rest depth need count) :
    Parser.signed inner c = Parser.power inner c := by
  have hrefused : primary inner c ≠ refuse .expression c := fun hp =>
    h.ne_unexpected c .expression
      (parser_eq_error (L := .power) (K := .atom) hp (by decide) (.inl (Nat.le_refl _)))
  rw [Parser.signed, peek_bind]
  cases hhead : c.head <;>
    first
    | rfl
    | exact (hrefused (by rw [primary, peek_bind, hhead]; rfl)).elim

theorem takes_of_tighter_of_isChain (hchain : L.isChain)
    (h : L.tighter.Takes ts e need count) : L.Takes ts e need count := by
  intro fuel depth c rest hc hrest hfuel
  have hL : L ≠ .access := fun hL => by rw [hL] at hchain; cases hchain
  rw [boundary, if_pos (.inl hchain)] at hrest
  rw [parser_of_isChain hchain]
  refine (h.reads hc hrest hfuel).bind_at fun c' hc' _ =>
    ⟨c', hc', rfl, maxOperators + 1, ?_, ?_⟩
  · rw [Enough, if_neg hL]
    omega
  · rw [resume, if_neg hL]

/-- A looser level takes what a tighter one does. -/
theorem Takes.of_tighter (h : L.tighter.Takes ts e need count) : L.Takes ts e need count := by
  cases L with
  | conditional =>
    refine takes_of_reads rfl (by decide) fun fuel depth c rest hc hrest hfuel => ?_
    refine (h.reads hc (hrest.of_rank_le (by decide)) hfuel).bind_at fun c' hc' _ =>
      ⟨c', hc', rfl, ?_⟩
    have hother := hrest.continued_ne hc'
    rw [eat_else, pure_apply]
    cases hhead : c'.head <;> first | rfl | simp [hhead, Lexeme.continued] at hother
  | coalescence | disjunction | conjunction | equality | order | membership | sum | product =>
    exact takes_of_tighter_of_isChain rfl h
  | sign =>
    refine takes_of_reads rfl (by decide) fun fuel depth c rest hc hrest hfuel => ?_
    have hread : Reads (Parser.power (inner fuel depth)) c e rest depth need count :=
      h.reads hc (hrest.of_rank_le (by decide)) hfuel
    exact hread.of_eq (signed_eq_power hread) rfl
  | power =>
    refine takes_of_reads rfl (by decide) fun fuel depth c rest hc hrest hfuel => ?_
    refine (h.reads hc (hrest.of_rank_le (by decide)) hfuel).bind_at fun c' hc' _ =>
      ⟨c', hc', rfl, ?_⟩
    have hother := hrest.continued_ne hc'
    rw [eat_else, pure_apply]
    cases hhead : c'.head <;> first | rfl | simp [hhead, Lexeme.continued] at hother
  | access =>
    intro fuel depth c rest hc hrest hfuel
    exact (h.reads hc hrest hfuel).bind_at fun c' hc' _ =>
      ⟨c', hc', rfl, c'.tokens.length, Nat.le_refl _, rfl⟩
  | atom => exact h

theorem Takes.of_rank_le {K : Level} (h : L.Takes ts e need count) (hle : K.rank ≤ L.rank) :
    K.Takes ts e need count := by
  induction K using downward with
  | hatom => rwa [eq_of_rank_eq (Nat.le_antisymm hle (by cases L <;> decide))]
  | hstep K ih =>
    by_cases heq : K.rank = L.rank
    · rwa [eq_of_rank_eq heq]
    · have := K.rank_tighter_le
      exact (ih (by omega)).of_tighter

theorem endsAt_of_continued_eq_none {t : Lexeme} (h : ∀ next, t.continued next = none) :
    L.EndsAt (t :: rest) := fun K hK => by
  rw [List.headD_cons, h] at hK
  cases hK

theorem Takes.reads_expression (h : Level.conditional.Takes ts e need count)
    (hc : c.At (ts ++ rest)) (hrest : Level.conditional.EndsAt rest) (hfuel : ts.length < fuel) :
    Reads (inner fuel depth).expression c e rest depth (need + 1) count := by
  obtain ⟨fuel, rfl⟩ : ∃ k, fuel = k + 1 := ⟨fuel - 1, by omega⟩
  cases depth with
  | zero => exact meets_tooDeep rfl
  | succ depth => exact (h.reads hc hrest (by omega)).deeper

theorem Takes.reads_signed (h : Level.sign.Takes ts e need count)
    (hc : c.At (ts ++ rest)) (hrest : Level.sign.EndsAt rest) (hfuel : ts.length < fuel) :
    Reads (inner fuel depth).signed c e rest depth (need + 1) count := by
  obtain ⟨fuel, rfl⟩ : ∃ k, fuel = k + 1 := ⟨fuel - 1, by omega⟩
  cases depth with
  | zero => exact meets_tooDeep rfl
  | succ depth => exact (h.reads hc hrest (by omega)).deeper

theorem Takes.reads_bound (h : Level.sum.Takes ts e need count)
    (hc : c.At (ts ++ rest)) (hrest : Level.sum.EndsAt rest) (hfuel : ts.length < fuel) :
    Reads (inner fuel depth).bound c e rest depth need count := by
  obtain ⟨fuel, rfl⟩ : ∃ k, fuel = k + 1 := ⟨fuel - 1, by omega⟩
  exact h.reads hc hrest (by omega)

theorem Takes.not_refused (h : Level.conditional.Takes ts e need count) (hc : c.At (ts ++ rest))
    (hrest : Level.conditional.EndsAt rest) :
    ¬∀ inner, primary inner c = refuse .expression c ∧
      Parser.signed inner c = Parser.power inner c := by
  intro hrefused
  have hread : Reads (Parser.conditional (inner ts.length 0)) c e rest 0 need count :=
    h.reads hc hrest (Nat.le_refl _)
  obtain ⟨hprimary, hsigned⟩ := hrefused (inner ts.length 0)
  exact hread.ne_unexpected c .expression
    (parser_eq_error (L := .conditional) (K := .atom) hprimary (by decide) (.inr (.inr hsigned)))

theorem Takes.head_beq_closing (h : Level.conditional.Takes ts e need count)
    (hc : c.At (ts ++ rest)) (hrest : Level.conditional.EndsAt rest) {t : Lexeme}
    (ht : t = .closeBracket ∨ t = .closeParen) : (c.head == t) = false := by
  rw [← Bool.not_eq_true]
  intro hbeq
  have hmark : t.isMark := by rcases ht with rfl | rfl <;> rfl
  have hhead := (Lexeme.beq_mark hmark _).1 hbeq
  refine h.not_refused hc hrest fun inner => ?_
  rw [primary, Parser.signed, peek_bind, peek_bind, hhead]
  rcases ht with rfl | rfl <;> exact ⟨rfl, rfl⟩

theorem takes_parentheses (h : Level.conditional.Takes ts e need count) :
    Level.atom.Takes (.openParen :: ts ++ [.closeParen]) e (need + 1) count := by
  refine takes_of_reads rfl (by decide) fun fuel depth c rest hc _ hfuel => ?_
  simp only [List.cons_append, List.append_assoc, List.nil_append] at hc
  simp only [List.length_append, List.length_cons, List.length_nil] at hfuel
  have hprimary : primary (inner fuel depth) c = parenRest (inner fuel depth) c.next := by
    rw [primary, peek_bind, hc.head]
    rfl
  refine Meets.of_eq hprimary (Cursor.next_operators c) ?_
  refine (h.reads_expression hc.next (endsAt_of_continued_eq_none fun _ => rfl)
    (by omega)).bind_at fun c' hc' _ => ⟨c'.next, hc'.next, Cursor.next_operators c', ?_⟩
  rw [eat_else (by rw [hc'.head]; rfl), expect_bind (by rw [hc'.head]; rfl), pure_apply]

end Level

/-- What the level of an expression takes for it is taken for it on every level, in parentheses if
the level is tighter. -/
theorem Expr.takes_lexemesAt {e : Expr}
    (h : e.level.Takes e.lexemes e e.nesting e.operatorCount) (L : Level) :
    L.Takes (e.lexemesAt L) e (e.nestingAt L) e.operatorCount := by
  unfold Expr.lexemesAt Expr.nestingAt enclose encloseNesting
  split
  · exact (Level.takes_parentheses (h.of_rank_le (Nat.zero_le _))).of_rank_le
      (by cases L <;> decide)
  · exact h.of_rank_le (by omega)

end RuleGraph

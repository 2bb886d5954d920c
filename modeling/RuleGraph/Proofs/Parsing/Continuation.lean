import RuleGraph.Proofs.Parsing.Levels
import RuleGraph.Proofs.Parsing.Tokens
/-!
# Tokens in place of the end

What a parser makes of tokens up to the end of a text it also makes of tokens with the same lexemes
at other positions, with more operators behind them, and with a comma and further tokens in place of
the end. It only fails there if the operators become too many.
-/
namespace RuleGraph

namespace Cursor

theorem length_next_le (c : Cursor) : c.next.tokens.length ≤ c.tokens.length := by
  unfold next
  split
  · next heq =>
    rw [heq]
    exact Nat.le_succ _
  · exact Nat.le_refl _

/-- The second cursor is before the same lexemes as the first one and then before `rest`, with at
least as many operators behind it. -/
structure Alongside (rest : List Lexeme) (c c' : Cursor) : Prop where
  lexemes : ∃ ts, .eof ∉ ts ∧ c.At ts ∧ c'.At (ts ++ rest)
  operators_le : c.operators ≤ c'.operators

namespace Alongside
variable {rest : List Lexeme} {c c' : Cursor}

theorem operators_le_max (h : c.Alongside rest c') : c'.operators ≤ maxOperators := by
  obtain ⟨ts, -, -, hc'⟩ := h.lexemes
  exact hc'.operators_le

theorem length (h : c.Alongside rest c') :
    c'.tokens.length = c.tokens.length + rest.length ∧ 0 < c.tokens.length := by
  obtain ⟨ts, -, hc, hc'⟩ := h.lexemes
  have hlength := hc'.length
  rw [List.length_append] at hlength
  rw [hc.length]
  omega

theorem withOperators (h : c.Alongside rest c') {n n' : Nat} (hle : n ≤ n')
    (hmax : n' ≤ maxOperators) :
    Alongside rest { c with operators := n } { c' with operators := n' } := by
  obtain ⟨ts, heof, hc, hc'⟩ := h.lexemes
  exact ⟨⟨ts, heof, ⟨hc.lexemes, Nat.le_trans hle hmax⟩, ⟨hc'.lexemes, hmax⟩⟩, hle⟩

theorem cons (h : c.Alongside rest c') (hne : c.head ≠ .eof) : ∃ ts, .eof ∉ ts ∧
    c.At (c.head :: ts) ∧ c'.At (c.head :: (ts ++ rest)) := by
  obtain ⟨ts, heof, hc, hc'⟩ := h.lexemes
  cases ts with
  | nil => exact absurd hc.head_eq hne
  | cons t ts =>
    rw [hc.head]
    exact ⟨ts, fun hmem => heof (List.mem_cons_of_mem t hmem), hc, hc'⟩

theorem head (h : c.Alongside rest c') (hne : c.head ≠ .eof) : c'.head = c.head := by
  obtain ⟨ts, -, -, hc'⟩ := h.cons hne
  exact hc'.head

theorem next (h : c.Alongside rest c') (hne : c.head ≠ .eof) : c.next.Alongside rest c'.next := by
  obtain ⟨ts, heof, hc, hc'⟩ := h.cons hne
  refine ⟨⟨ts, heof, hc.next, hc'.next⟩, ?_⟩
  rw [next_operators, next_operators]
  exact h.operators_le

theorem length_next (h : c.Alongside rest c') (hne : c.head ≠ .eof) :
    c.next.tokens.length + 1 = c.tokens.length := by
  obtain ⟨ts, -, hc, -⟩ := h.cons hne
  rw [hc.next.length, hc.length]
  rfl

theorem second (h : c.Alongside rest c') (hne : c.head ≠ .eof) :
    c.second = c.next.head ∧ c'.second = c'.next.head := by
  obtain ⟨ts, -, hc, hc'⟩ := h.cons hne
  exact ⟨by rw [hc.second_eq, hc.next.head_eq]; rfl, by rw [hc'.second_eq, hc'.next.head_eq]; rfl⟩

theorem head_of_eof (h : c.Alongside rest c') (hend : c.head = .eof) :
    c'.At rest ∧ c'.head = rest.headD .eof := by
  obtain ⟨ts, heof, hc, hc'⟩ := h.lexemes
  cases ts with
  | nil => exact ⟨hc', hc'.head_eq⟩
  | cons t ts =>
    rw [hc.head] at hend
    exact absurd (hend ▸ List.mem_cons_self) heof

end Alongside
end Cursor

namespace Parser
open Cursor
variable {α β : Type}

/-- What comes out before the end also comes out where `rest` stands in its place, with as many more
operators as before, unless these are more than there may be. -/
def Continues (rest : List Lexeme) (c c' : Cursor) (r r' : Except ParseError (α × Cursor)) : Prop :=
  ∀ a d, r = .ok (a, d) → d.tokens.length ≤ c.tokens.length ∧ c.operators ≤ d.operators ∧
    ∃ d', d.Alongside rest d' ∧
      (r' = .ok (a, d') ∧ d'.operators + c.operators = d.operators + c'.operators ∨
        maxOperators + c.operators < d.operators + c'.operators ∧
          ∃ position, r' = .error (.malformed position .tooManyOperators))

section
variable {rest : List Lexeme} {c c' : Cursor} {r r' : Except ParseError (α × Cursor)}

theorem continues_error (e : ParseError) : Continues rest c c' (.error e) r' :=
  nofun

theorem continues_pure (h : c.Alongside rest c') (a : α) :
    Continues rest c c' ((pure a : Parser α) c) ((pure a : Parser α) c') := by
  rintro _ _ ⟨⟩
  exact ⟨Nat.le_refl _, Nat.le_refl _, c', h, .inl ⟨rfl, Nat.add_comm ..⟩⟩

theorem Continues.bind {p p' : Parser α} {f f' : α → Parser β}
    (h : Continues rest c c' (p c) (p' c'))
    (hf : ∀ a d d', d.Alongside rest d' → d.tokens.length ≤ c.tokens.length →
      Continues rest d d' (f a d) (f' a d')) :
    Continues rest c c' ((p >>= f) c) ((p' >>= f') c') := by
  intro b e hb
  obtain ⟨⟨a, d⟩, ha, hb⟩ := bind_eq_ok.1 (show (p c >>= fun s => f s.1 s.2) = .ok (b, e) from hb)
  obtain ⟨hlength, hoperators, d', hd, hcases⟩ := h a d ha
  obtain ⟨hlength', hoperators', e', he, hcases'⟩ := hf a d d' hd hlength b e hb
  refine ⟨by omega, by omega, e', he, ?_⟩
  change ((p' c' >>= fun s => f' s.1 s.2) = .ok (b, e') ∧ _) ∨ _ ∧ ∃ position,
    (p' c' >>= fun s => f' s.1 s.2) = .error (.malformed position .tooManyOperators)
  rcases hcases with ⟨ha', hcount⟩ | ⟨hmany, position, ha'⟩
  · rw [ha', ok_bind]
    rcases hcases' with ⟨hb', hcount'⟩ | ⟨hmany, position, hb'⟩
    · exact .inl ⟨hb', by omega⟩
    · exact .inr ⟨by omega, position, hb'⟩
  · rw [ha', error_bind]
    exact .inr ⟨by omega, position, rfl⟩

theorem Continues.next (h : c.Alongside rest c') (hne : c.head ≠ .eof)
    (hr : c.next.Alongside rest c'.next → Continues rest c.next c'.next r r') :
    Continues rest c c' r r' := by
  intro a d hd
  obtain ⟨hlength, hoperators, d', hd', hcases⟩ := hr (h.next hne) a d hd
  rw [next_operators, next_operators] at hcases
  rw [next_operators] at hoperators
  have hnext := h.length_next hne
  exact ⟨by omega, hoperators, d', hd', hcases⟩

theorem continues_skip (h : c.Alongside rest c') (hne : c.head ≠ .eof) {f f' : Unit → Parser α}
    (hf : c.next.Alongside rest c'.next →
      Continues rest c.next c'.next (f () c.next) (f' () c'.next)) :
    Continues rest c c' ((skip >>= f) c) ((skip >>= f') c') :=
  .next h hne hf

theorem continues_countOperator (h : c.Alongside rest c') {f f' : Unit → Parser α}
    (hf : ∀ d d', d.Alongside rest d' → d.tokens.length ≤ c.tokens.length →
      Continues rest d d' (f () d) (f' () d')) :
    Continues rest c c' ((countOperator >>= f) c) ((countOperator >>= f') c') := by
  refine .bind ?_ fun _ d d' hd hlength => hf d d' hd hlength
  rintro ⟨⟩ d hd
  unfold countOperator at hd ⊢
  have hle := h.operators_le
  split at hd
  · cases hd
  · next hroom =>
    cases hd
    refine ⟨Nat.le_refl _, Nat.le_succ _, ?_⟩
    by_cases hfull : maxOperators ≤ c'.operators
    · refine ⟨_, h.withOperators (Nat.le_refl _) (Nat.not_le.1 hroom), .inr ⟨?_, c'.position, ?_⟩⟩
      · simp only
        omega
      · rw [if_pos hfull]
    · refine ⟨_, h.withOperators (Nat.succ_le_succ hle) (Nat.not_le.1 hfull), .inl ⟨?_, ?_⟩⟩
      · rw [if_neg hfull]
      · simp only
        omega

/-- The lexemes begin with the end or with a comma, at which every expression ends. -/
def EndsText (rest : List Lexeme) : Prop :=
  rest.headD .eof = .eof ∨ rest.headD .eof = .comma

theorem continues_expect (h : c.Alongside rest c') {t : Lexeme} (ht : t.isMark) (what : Expected)
    {f f' : Unit → Parser α} (hf : c.next.Alongside rest c'.next →
      Continues rest c.next c'.next (f () c.next) (f' () c'.next)) :
    Continues rest c c' ((expect t what >>= f) c) ((expect t what >>= f') c') := by
  cases hhead : c.head == t with
  | true =>
    have hne : c.head ≠ .eof := by
      rw [(Lexeme.beq_mark ht _).1 hhead]
      rintro rfl
      cases ht
    rw [expect_bind hhead, expect_bind (by rwa [h.head hne])]
    exact .next h hne hf
  | false =>
    rw [expect_bind_of_ne hhead]
    exact continues_error _

theorem continues_eat_of_beq (h : c.Alongside rest c') {t : Lexeme} (ht : t.isMark)
    (hbeq : (c'.head == t) = (c.head == t)) {p q p' q' : Parser α}
    (hthen : c.next.Alongside rest c'.next →
      Continues rest c.next c'.next (p c.next) (p' c'.next))
    (helse : Continues rest c c' (q c) (q' c')) :
    Continues rest c c' ((eat t >>= fun b => if b = true then p else q) c)
      ((eat t >>= fun b => if b = true then p' else q') c') := by
  cases hhead : c.head == t with
  | true =>
    have hne : c.head ≠ .eof := by
      rw [(Lexeme.beq_mark ht _).1 hhead]
      rintro rfl
      cases ht
    rw [eat_then hhead, eat_then (hbeq.trans hhead)]
    exact .next h hne hthen
  | false =>
    rw [eat_else hhead, eat_else (hbeq.trans hhead)]
    exact helse

theorem head_beq_of_eof (hend : c.head = .eof) {t : Lexeme} (ht : t.isMark) :
    (c.head == t) = false := by
  rw [hend, ← Bool.not_eq_true, Lexeme.beq_mark ht]
  rintro rfl
  cases ht

section
variable (hrest : EndsText rest) (h : c.Alongside rest c')
include hrest h

theorem head_beq {t : Lexeme} (ht : t.isMark) (hcomma : t ≠ .comma) :
    (c'.head == t) = (c.head == t) := by
  by_cases hend : c.head = .eof
  · have hne : c'.head ≠ t ∧ c.head ≠ t := by
      rw [hend, (h.head_of_eof hend).2]
      refine ⟨?_, ?_⟩
      · rintro rfl
        rcases hrest with heof | heq
        · rw [heof] at ht
          cases ht
        · exact hcomma heq
      · rintro rfl
        cases ht
    rw [Bool.eq_iff_iff, Lexeme.beq_mark ht, Lexeme.beq_mark ht]
    exact iff_of_false hne.1 hne.2
  · rw [h.head hend]

theorem continues_eat (t : Lexeme) (ht : t.isMark) (hcomma : t ≠ .comma) {p q p' q' : Parser α}
    (hthen : c.next.Alongside rest c'.next →
      Continues rest c.next c'.next (p c.next) (p' c'.next))
    (helse : Continues rest c c' (q c) (q' c')) :
    Continues rest c c' ((eat t >>= fun b => if b = true then p else q) c)
      ((eat t >>= fun b => if b = true then p' else q') c') :=
  continues_eat_of_beq h ht (head_beq hrest h ht hcomma) hthen helse

theorem continues_peek {f f' : Lexeme → Parser α}
    (hsame : c.head ≠ .eof → Continues rest c c' (f c.head c) (f' c.head c'))
    (hend : c.head = .eof → ∀ t, t = .eof ∨ t = .comma →
      Continues rest c c' (f .eof c) (f' t c')) :
    Continues rest c c' ((peek >>= f) c) ((peek >>= f') c') := by
  rw [peek_bind, peek_bind]
  by_cases heof : c.head = .eof
  · rw [heof, (h.head_of_eof heof).2]
    exact hend heof _ hrest
  · rw [h.head heof]
    exact hsame heof

end

/-- A choice that is made in the same way where `rest` stands in place of the end. -/
def Steady (rest : List Lexeme) (choice : Choice) : Prop :=
  ∀ ⦃c c' : Cursor⦄, c.Alongside rest c' → choice c' = choice c ∧
    ∀ op double, choice c = some (op, double) →
      c.head ≠ .eof ∧ (double = true → c.next.head ≠ .eof)

theorem continues_chain {choice : Choice} (hchoice : Steady rest choice)
    {operand operand' : Parser Expr} (hoperand : ∀ ⦃c c' : Cursor⦄, c.Alongside rest c' →
      Continues rest c c' (operand c) (operand' c')) (h : c.Alongside rest c') (fuel : Nat)
    (e : Expr) :
    Continues rest c c' (chain choice operand fuel e c) (chain choice operand' fuel e c') := by
  induction fuel generalizing c c' e with
  | zero => exact continues_pure h e
  | succ fuel ih =>
    obtain ⟨heq, hne⟩ := hchoice h
    rw [chain, chain, get_bind, get_bind, heq]
    cases hfound : choice c with
    | none => exact continues_pure h e
    | some found =>
      obtain ⟨op, double⟩ := found
      obtain ⟨hhead, hsecond⟩ := hne op double hfound
      have hoperation {c c' : Cursor} (h : c.Alongside rest c') : Continues rest c c'
          ((countOperator >>= fun _ => operand >>= fun right =>
            chain choice operand fuel (.binary e op right) : Parser Expr) c)
          ((countOperator >>= fun _ => operand' >>= fun right =>
            chain choice operand' fuel (.binary e op right) : Parser Expr) c') :=
        continues_countOperator h fun d d' hd _ =>
          (hoperand hd).bind fun right e e' he _ => ih he _
      refine .next h hhead fun hnext => ?_
      cases double with
      | false => exact hoperation hnext
      | true => exact .next hnext (hsecond rfl) hoperation

theorem continues_level {choice : Choice} (hchoice : Steady rest choice)
    {operand operand' : Parser Expr} (hoperand : ∀ ⦃c c' : Cursor⦄, c.Alongside rest c' →
      Continues rest c c' (operand c) (operand' c')) (h : c.Alongside rest c') :
    Continues rest c c' (level choice operand c) (level choice operand' c') :=
  (hoperand h).bind fun e _ _ hd _ => continues_chain hchoice hoperand hd _ e

section
variable (hrest : EndsText rest)
include hrest

theorem steady_of_head {choice : Choice} (hhead : ∀ c, choice c = choice ⟨[⟨c.head, 0⟩], 0⟩)
    (hends : ∀ t, t = .eof ∨ t = .comma → choice ⟨[⟨t, 0⟩], 0⟩ = none)
    (hsingle : ∀ c op, choice c ≠ some (op, true)) : Steady rest choice := by
  intro c c' h
  by_cases heof : c.head = .eof
  · have hnone : choice c = none := by
      rw [hhead, heof]
      exact hends _ (.inl rfl)
    refine ⟨?_, fun op double hfound => ?_⟩
    · rw [hnone, hhead, (h.head_of_eof heof).2]
      exact hends _ hrest
    · rw [hnone] at hfound
      cases hfound
  · refine ⟨by rw [hhead, h.head heof, ← hhead], fun op double hfound => ⟨heof, ?_⟩⟩
    rintro rfl
    exact absurd hfound (hsingle c op)

theorem second_cases (h : c.Alongside rest c') (hne : c.head ≠ .eof) :
    c'.second = c.second ∨
      c.second = .eof ∧ (c'.second = .eof ∨ c'.second = .comma) := by
  obtain ⟨hsecond, hsecond'⟩ := h.second hne
  rw [hsecond, hsecond']
  by_cases heof : c.next.head = .eof
  · rw [((h.next hne).head_of_eof heof).2]
    exact .inr ⟨heof, hrest⟩
  · exact .inl ((h.next hne).head heof)

theorem steady_membershipChoice : Steady rest membershipChoice := by
  intro c c' h
  by_cases heof : c.head = .eof
  · have hnone : membershipChoice c = none := by simp [membershipChoice, heof]
    refine ⟨?_, fun op double hfound => by rw [hnone] at hfound; cases hfound⟩
    have hhead := (h.head_of_eof heof).2
    rw [hnone]
    rcases hrest with heq | heq
    · rw [membershipChoice, hhead, heq]
    · rw [membershipChoice, hhead, heq]
  · have hsecond := second_cases hrest h heof
    have hnext := (h.second heof).1
    have hhead := h.head heof
    refine ⟨?_, fun op double hfound => ⟨heof, ?_⟩⟩
    · rcases hsecond with hsame | ⟨hend, hend' | hend'⟩
      · rw [membershipChoice, membershipChoice, hhead, hsame]
      · simp [membershipChoice, hhead, hend, hend']
      · cases hword : c.head <;> simp [membershipChoice, hhead, hword, hend, hend']
    · rintro rfl
      rw [← hnext]
      unfold membershipChoice at hfound
      split at hfound
      · cases hfound
      · next hin =>
        rw [hin]
        exact Lexeme.noConfusion
      · cases hfound

theorem steady_choice (L : Level) : Steady rest L.choice := by
  cases L with
  | membership => exact steady_membershipChoice hrest
  | coalescence | disjunction | conjunction | equality | order | sum | product =>
    refine steady_of_head hrest (fun _ => rfl) (by rintro _ (rfl | rfl) <;> rfl) fun c op => ?_
    simp only [Level.choice, coalesceChoice, orChoice, andChoice, equalityChoice, orderChoice,
      sumChoice, productChoice]
    split <;> simp
  | conditional | sign | power | access | atom =>
    refine fun c c' h => ⟨rfl, fun op double hfound => ?_⟩
    cases hfound

theorem steady_beforeComparison {choice : Choice} (hchoice : Steady rest choice) :
    Steady rest (beforeComparison choice) := by
  intro c c' h
  obtain ⟨heq, hne⟩ := hchoice h
  have hfound (op : Operator) (double : Bool) (hfound : beforeComparison choice c =
      some (op, double)) : choice c = some (op, double) := by
    unfold beforeComparison at hfound
    split at hfound
    · exact hfound
    · cases hfound
  refine ⟨?_, fun op double hc => hne op double (hfound op double hc)⟩
  by_cases heof : c.head = .eof
  · have hnone : choice c = none := by
      cases hc : choice c with
      | none => rfl
      | some found => exact absurd heof (hne _ _ hc).1
    simp [beforeComparison, heq, hnone]
  · rcases second_cases hrest h heof with hsame | ⟨hend, hend' | hend'⟩
    · rw [beforeComparison, beforeComparison, hsame, heq]
    · rw [beforeComparison, beforeComparison, hend, hend', heq]
    · rw [beforeComparison, beforeComparison, hend, hend']
      rfl

end
end

theorem continues_eatComma (h : c.Alongside rest c') {p q p' q' : Parser α}
    (hopen : c.head = .eof → ∃ e, q c = .error e)
    (hthen : c.head ≠ .eof → c.next.Alongside rest c'.next →
      Continues rest c.next c'.next (p c.next) (p' c'.next))
    (helse : Continues rest c c' (q c) (q' c')) :
    Continues rest c c' ((eat .comma >>= fun b => if b = true then p else q) c)
      ((eat .comma >>= fun b => if b = true then p' else q') c') := by
  by_cases hend : c.head = .eof
  · obtain ⟨e, he⟩ := hopen hend
    rw [eat_else (head_beq_of_eof hend rfl), he]
    exact continues_error e
  · exact continues_eat_of_beq h rfl (by rw [h.head hend]) (hthen hend) helse

def closedItems (inner : Inner) (fuel : Nat) (items : List Expr) : Parser Expr := do
  let items ← itemsRest inner fuel items
  expect .closeBracket .closeBracket
  return .array items

theorem closedItems_zero (inner : Inner) (items : List Expr) : closedItems inner 0 items =
    (expect .closeBracket .closeBracket >>= fun _ => pure (.array items)) := rfl

theorem closedItems_succ (inner : Inner) (fuel : Nat) (items : List Expr) :
    closedItems inner (fuel + 1) items = (eat .comma >>= fun b => if b = true then
      peek >>= fun t => if (t == .closeBracket) = true then closedItems inner 0 items
        else inner.expression >>= fun item => closedItems inner fuel (items ++ [item])
      else closedItems inner 0 items) := by
  rw [closedItems, itemsRest, bind_assoc]
  refine bind_congr fun found => ?_
  cases found with
  | false => rfl
  | true =>
    rw [if_pos rfl, if_pos rfl, bind_assoc]
    refine bind_congr fun t => ?_
    split
    · rfl
    · exact bind_assoc ..

structure Inner.Continues (rest : List Lexeme) (inner inner' : Inner) : Prop where
  expression {c c' : Cursor} (h : c.Alongside rest c') :
    Parser.Continues rest c c' (inner.expression c) (inner'.expression c')
  signed {c c' : Cursor} (h : c.Alongside rest c') :
    Parser.Continues rest c c' (inner.signed c) (inner'.signed c')
  bound {c c' : Cursor} (h : c.Alongside rest c') :
    Parser.Continues rest c c' (inner.bound c) (inner'.bound c')

section
variable {rest : List Lexeme} {inner inner' : Inner} {c c' : Cursor}
  (hinner : inner.Continues rest inner') (hrest : EndsText rest) (h : c.Alongside rest c')
include hinner hrest h

theorem continues_intervalRest (start : Expr) (startIncluded : Bool) :
    Continues rest c c' (intervalRest inner start startIncluded c)
      (intervalRest inner' start startIncluded c') := by
  refine (hinner.bound h).bind fun stop d d' hd _ => ?_
  refine continues_peek hrest hd (fun hne => ?_) fun _ _ _ => continues_error _
  cases d.head with
  | closeBracket => exact continues_skip hd hne fun hnext => continues_pure hnext _
  | closeParen => exact continues_skip hd hne fun hnext => continues_pure hnext _
  | _ => exact continues_error _

theorem continues_closedItems {fuel fuel' : Nat} (hfuel : c.tokens.length ≤ fuel)
    (hfuel' : c'.tokens.length ≤ fuel') (items : List Expr) :
    Continues rest c c' (closedItems inner fuel items c) (closedItems inner' fuel' items c') := by
  induction fuel generalizing c c' fuel' items with
  | zero => exact absurd h.length.2 (by omega)
  | succ fuel ih =>
    have hlength := h.length
    obtain ⟨fuel', rfl⟩ := Nat.exists_eq_succ_of_ne_zero (show fuel' ≠ 0 by omega)
    have hclose {d d' : Cursor} (hd : d.Alongside rest d') :
        Continues rest d d' (closedItems inner 0 items d) (closedItems inner' 0 items d') := by
      rw [closedItems_zero, closedItems_zero]
      exact continues_expect hd rfl _ fun hnext => continues_pure hnext _
    rw [closedItems_succ, closedItems_succ]
    refine continues_eatComma h (fun hend => ?_) (fun hne hnext => ?_) (hclose h)
    · rw [closedItems_zero, expect_bind_of_ne (head_beq_of_eof hend rfl)]
      exact ⟨_, rfl⟩
    · have hpassed := h.length_next hne
      have hmore : Continues rest c.next c'.next
          ((inner.expression >>= fun item => closedItems inner fuel (items ++ [item])) c.next)
          ((inner'.expression >>= fun item => closedItems inner' fuel' (items ++ [item]))
            c'.next) := by
        refine (hinner.expression hnext).bind fun item d d' hd hle => ?_
        have hlength' := hd.length
        exact ih hd (by omega) (by omega) (items ++ [item])
      refine continues_peek hrest hnext (fun hne => ?_) fun _ t ht => ?_
      · split
        · exact hclose hnext
        · exact hmore
      · rcases ht with rfl | rfl
        · exact hmore
        · exact hmore

theorem continues_bracketRest :
    Continues rest c c' (bracketRest inner c) (bracketRest inner' c') := by
  refine continues_eat hrest h .closeBracket rfl nofun
    (fun hnext => continues_pure hnext _) ?_
  refine (hinner.expression h).bind fun first d d' hd _ => ?_
  refine continues_eat hrest hd .dots rfl nofun
    (fun hnext => continues_intervalRest hinner hrest hnext first true) ?_
  exact continues_closedItems hinner hrest hd (Nat.le_refl _) (Nat.le_refl _) [first]

theorem continues_parenRest : Continues rest c c' (parenRest inner c) (parenRest inner' c') := by
  refine (hinner.expression h).bind fun first d d' hd _ => ?_
  refine continues_eat hrest hd .dots rfl nofun
    (fun hnext => continues_intervalRest hinner hrest hnext first false) ?_
  exact continues_expect hd rfl _ fun hnext => continues_pure hnext _

theorem continues_entriesRest {fuel fuel' : Nat} (hfuel : c.tokens.length ≤ fuel)
    (hfuel' : c'.tokens.length ≤ fuel') (entries : List (String × Expr)) :
    Continues rest c c' (entriesRest inner fuel entries c)
      (entriesRest inner' fuel' entries c') := by
  induction fuel generalizing c c' fuel' entries with
  | zero => exact absurd h.length.2 (by omega)
  | succ fuel ih =>
    have hlength := h.length
    obtain ⟨fuel', rfl⟩ := Nat.exists_eq_succ_of_ne_zero (show fuel' ≠ 0 by omega)
    rw [entriesRest, entriesRest]
    refine continues_peek hrest h (fun hne => ?_) fun _ _ _ => continues_error _
    have hpassed := h.length_next hne
    have hentry (key : String) (hnext : c.next.Alongside rest c'.next) :
        Continues rest c.next c'.next
          ((expect .colon .keyColon >>= fun _ => inner.expression >>= fun value =>
            eat .comma >>= fun b => if b = true then
              entriesRest inner fuel (entries ++ [(key, value)])
            else expect .closeBrace .closeBrace >>= fun _ =>
              pure (.object (entries ++ [(key, value)])) : Parser Expr) c.next)
          ((expect .colon .keyColon >>= fun _ => inner'.expression >>= fun value =>
            eat .comma >>= fun b => if b = true then
              entriesRest inner' fuel' (entries ++ [(key, value)])
            else expect .closeBrace .closeBrace >>= fun _ =>
              pure (.object (entries ++ [(key, value)])) : Parser Expr) c'.next) := by
      refine continues_expect hnext rfl _ fun hvalue => ?_
      have hcolon := c.next.length_next_le
      refine (hinner.expression hvalue).bind fun value d d' hd hle => ?_
      refine continues_eatComma hd (fun hend => ?_) (fun hne' hmore => ?_) ?_
      · rw [expect_bind_of_ne (head_beq_of_eof hend rfl)]
        exact ⟨_, rfl⟩
      · have hcomma := hd.length_next hne'
        have hlength' := hmore.length
        exact ih hmore (by omega) (by omega) _
      · exact continues_expect hd rfl _ fun hclosed => continues_pure hclosed _
    cases c.head with
    | closeBrace => exact continues_skip h hne fun hnext => continues_pure hnext _
    | identifier key => exact continues_skip h hne (hentry key)
    | string key => exact continues_skip h hne (hentry key)
    | _ => exact continues_error _

theorem continues_argumentsRest {fuel fuel' : Nat} (hfuel : c.tokens.length ≤ fuel)
    (hfuel' : c'.tokens.length ≤ fuel') (args : List Expr) :
    Continues rest c c' (argumentsRest inner fuel args c) (argumentsRest inner' fuel' args c') := by
  induction fuel generalizing c c' fuel' args with
  | zero => exact absurd h.length.2 (by omega)
  | succ fuel ih =>
    have hlength := h.length
    obtain ⟨fuel', rfl⟩ := Nat.exists_eq_succ_of_ne_zero (show fuel' ≠ 0 by omega)
    rw [argumentsRest, argumentsRest]
    refine (hinner.expression h).bind fun arg d d' hd hle => ?_
    refine continues_eat hrest hd .closeParen rfl nofun
      (fun hclosed => continues_pure hclosed _) ?_
    by_cases hend : d.head = .eof
    · rw [expect_bind_of_ne (head_beq_of_eof hend rfl)]
      exact continues_error _
    · have hcomma := hd.length_next hend
      refine continues_expect hd rfl _ fun hmore => ?_
      have hlength' := hmore.length
      exact ih hmore (by omega) (by omega) _

theorem continues_callRest (name : String) :
    Continues rest c c' (callRest inner name c) (callRest inner' name c') := by
  unfold callRest
  cases Builtin.ofName? name with
  | none => exact continues_error _
  | some f =>
    have hcall (args : List Expr) {d d' : Cursor} (hd : d.Alongside rest d') :
        Continues rest d d'
          ((if f.accepts args.length then pure (.call f args)
            else throw (.invalidArity f args.length) : Parser Expr) d)
          ((if f.accepts args.length then pure (.call f args)
            else throw (.invalidArity f args.length) : Parser Expr) d') := by
      split
      · exact continues_pure hd _
      · exact continues_error _
    refine continues_expect h rfl _ fun hopen => ?_
    refine continues_eat hrest hopen .closeParen rfl nofun (hcall []) ?_
    exact (continues_argumentsRest hinner hrest hopen (Nat.le_refl _) (Nat.le_refl _) []).bind
      fun args d d' hd _ => hcall args hd

theorem continues_primary : Continues rest c c' (primary inner c) (primary inner' c') := by
  refine continues_peek hrest h (fun hne => ?_) fun _ _ _ => continues_error _
  cases hhead : c.head with
  | identifier name =>
    refine continues_skip h hne fun hnext =>
      continues_peek hrest hnext (fun _ => ?_) fun _ t ht => ?_
    · split
      · exact continues_callRest hinner hrest hnext name
      · exact continues_pure hnext _
    · rcases ht with rfl | rfl
      · exact continues_pure hnext _
      · exact continues_pure hnext _
  | openParen => exact continues_skip h hne (continues_parenRest hinner hrest)
  | openBracket => exact continues_skip h hne (continues_bracketRest hinner hrest)
  | openBrace =>
    exact continues_skip h hne fun hnext =>
      continues_entriesRest hinner hrest hnext (Nat.le_refl _) (Nat.le_refl _) []
  | number | string | trueWord | falseWord | nullWord | dollar | hash =>
    exact continues_skip h hne fun hnext => continues_pure hnext _
  | _ => exact continues_error _

theorem continues_accessRest {fuel fuel' : Nat} (hfuel : c.tokens.length ≤ fuel)
    (hfuel' : c'.tokens.length ≤ fuel') (e : Expr) :
    Continues rest c c' (accessRest inner fuel e c) (accessRest inner' fuel' e c') := by
  induction fuel generalizing c c' fuel' e with
  | zero => exact absurd h.length.2 (by omega)
  | succ fuel ih =>
    have hlength := h.length
    obtain ⟨fuel', rfl⟩ := Nat.exists_eq_succ_of_ne_zero (show fuel' ≠ 0 by omega)
    rw [accessRest, accessRest]
    refine continues_peek hrest h (fun hne => ?_) fun _ t ht => ?_
    · have hpassed := h.length_next hne
      cases c.head with
      | dot =>
        refine continues_skip h hne fun hnext => ?_
        refine continues_peek hrest hnext (fun hne' => ?_) fun _ _ _ => continues_error _
        cases c.next.head with
        | identifier name =>
          refine continues_skip hnext hne' fun hmore => ?_
          have hname := hnext.length_next hne'
          have hlength' := hmore.length
          exact ih hmore (by omega) (by omega) _
        | _ => exact continues_error _
      | openBracket =>
        refine continues_skip h hne fun hnext => ?_
        refine (hinner.expression hnext).bind fun key d d' hd hle => ?_
        refine continues_expect hd rfl _ fun hmore => ?_
        have hclosed := d.length_next_le
        have hlength' := hmore.length
        exact ih hmore (by omega) (by omega) _
      | _ => exact continues_pure h e
    · rcases ht with rfl | rfl
      · exact continues_pure h e
      · exact continues_pure h e

theorem continues_power : Continues rest c c' (power inner c) (power inner' c') := by
  have haccess : Continues rest c c' (access inner c) (access inner' c') :=
    (continues_primary hinner hrest h).bind fun e d d' hd _ =>
      continues_accessRest hinner hrest hd (Nat.le_refl _) (Nat.le_refl _) e
  refine haccess.bind fun base d d' hd _ => ?_
  refine continues_eat hrest hd .caret rfl nofun (fun hnext => ?_) (continues_pure hd base)
  exact (hinner.signed hnext).bind fun exponent _ _ he _ => continues_pure he _

theorem continues_signed : Continues rest c c' (signed inner c) (signed inner' c') := by
  refine continues_peek hrest h (fun hne => ?_) fun hend t ht => ?_
  · cases c.head with
    | notWord | bang | minus =>
      exact continues_skip h hne fun hnext =>
        (hinner.signed hnext).bind fun e _ _ he _ => continues_pure he _
    | _ => exact continues_power hinner hrest h
  · rcases ht with rfl | rfl
    · exact continues_power hinner hrest h
    · exact continues_power hinner hrest h

theorem continues_sum : Continues rest c c' (sum inner c) (sum inner' c') := by
  refine continues_level (steady_choice hrest .sum) (fun d d' hd => ?_) h
  exact continues_level (steady_choice hrest .product)
    (fun e e' he => continues_signed hinner hrest he) hd

theorem continues_coalescence :
    Continues rest c c' (coalescence inner c) (coalescence inner' c') := by
  refine continues_level (steady_choice hrest .coalescence) (fun c c' h => ?_) h
  refine continues_level (steady_choice hrest .disjunction) (fun c c' h => ?_) h
  refine continues_level (steady_choice hrest .conjunction) (fun c c' h => ?_) h
  refine continues_level (steady_choice hrest .equality) (fun c c' h => ?_) h
  refine continues_level (steady_choice hrest .order) (fun c c' h => ?_) h
  refine continues_level (steady_choice hrest .membership) (fun c c' h => ?_) h
  exact continues_sum hinner hrest h

theorem continues_conditional :
    Continues rest c c' (conditional inner c) (conditional inner' c') := by
  refine (continues_coalescence hinner hrest h).bind fun condition d d' hd _ => ?_
  refine continues_eat hrest hd .question rfl nofun (fun hnext => ?_) (continues_pure hd condition)
  refine (hinner.expression hnext).bind fun yes e e' he _ => ?_
  refine continues_expect he rfl _ fun hcolon => ?_
  exact (hinner.expression hcolon).bind fun no f f' hf _ => continues_pure hf _

end

/-- More tokens in place of the end need more fuel and no more nesting. -/
theorem continues_inner {rest : List Lexeme} (hrest : EndsText rest) {fuel fuel' : Nat}
    (hfuel : fuel ≤ fuel') (depth : Nat) :
    (inner fuel depth).Continues rest (inner fuel' depth) := by
  induction fuel generalizing fuel' depth with
  | zero =>
    exact ⟨fun _ => continues_error _, fun _ => continues_error _, fun _ => continues_error _⟩
  | succ fuel ih =>
    obtain ⟨fuel', rfl⟩ := Nat.exists_eq_succ_of_ne_zero (show fuel' ≠ 0 by omega)
    have hdeeper (depth : Nat) := ih (Nat.le_of_succ_le_succ hfuel) depth
    cases depth with
    | zero =>
      exact ⟨fun _ => continues_error _, fun _ => continues_error _,
        continues_sum (hdeeper 0) hrest⟩
    | succ depth =>
      exact ⟨continues_conditional (hdeeper depth) hrest, continues_signed (hdeeper depth) hrest,
        continues_sum (hdeeper (depth + 1)) hrest⟩

section
variable {rest : List Lexeme} {inner inner' : Inner} {c c' : Cursor}
  (hinner : inner.Continues rest inner') (hrest : EndsText rest) (h : c.Alongside rest c')
include hinner hrest h

theorem continues_subjectComparison :
    Continues rest c c' (subjectComparison inner c) (subjectComparison inner' c') := by
  have hoperand (op : Operator) (hne : c.head ≠ .eof) : Continues rest c c'
      ((skip >>= fun _ => sum inner >>= fun e => pure (.binary .subject op e) : Parser Expr) c)
      ((skip >>= fun _ => sum inner' >>= fun e => pure (.binary .subject op e) : Parser Expr) c') :=
    continues_skip h hne fun hnext =>
      (continues_sum hinner hrest hnext).bind fun e d d' hd _ => continues_pure hd _
  refine continues_peek hrest h (fun hne => ?_) fun _ _ _ => continues_error _
  cases c.head with
  | equal | notEqual | less | lessEqual | greater | greaterEqual => exact hoperand _ hne
  | _ => exact continues_error _

theorem continues_subjectComparisons :
    Continues rest c c' (subjectComparisons inner c) (subjectComparisons inner' c') := by
  refine continues_level (steady_beforeComparison hrest (steady_choice hrest .disjunction))
    (fun c c' h => ?_) h
  refine continues_level (steady_beforeComparison hrest (steady_choice hrest .conjunction))
    (fun c c' h => ?_) h
  exact continues_subjectComparison hinner hrest h

/-- An item at the end of a cell is also one in front of a comma. -/
theorem continues_cellItem : Continues rest c c' (cellItem inner c) (cellItem inner' c') := by
  have hcomparison : c'.head.isComparison = c.head.isComparison := by
    by_cases hend : c.head = .eof
    · rw [hend, (h.head_of_eof hend).2]
      rcases hrest with heq | heq
      · rw [heq]
      · rw [heq]
        rfl
    · rw [h.head hend]
  obtain ⟨heq, hne⟩ := steady_membershipChoice hrest h
  rw [cellItem, cellItem, get_bind, get_bind, hcomparison, heq]
  cases c.head.isComparison with
  | true => exact continues_subjectComparisons hinner hrest h
  | false =>
    cases hchoice : membershipChoice c with
    | none =>
      exact (hinner.expression h).bind fun e d d' hd _ => continues_pure hd _
    | some found =>
      obtain ⟨op, double⟩ := found
      obtain ⟨hhead, hsecond⟩ := hne op double hchoice
      have hoperand {c c' : Cursor} (h : c.Alongside rest c') : Continues rest c c'
          ((sum inner >>= fun e => pure (.binary .subject op e) : Parser Expr) c)
          ((sum inner' >>= fun e => pure (.binary .subject op e) : Parser Expr) c') :=
        (continues_sum hinner hrest h).bind fun e d d' hd _ => continues_pure hd _
      refine continues_skip h hhead fun hnext => ?_
      cases double with
      | false => exact hoperand hnext
      | true => exact continues_skip hnext (hsecond rfl) hoperand

end

end Parser

/-- Texts with the same lexemes are parsed as the same expression. -/
theorem Expr.parse_of_lexedAs {source : String} {e : Expr} (h : Expr.parse source = .ok e)
    {ts : List Lexeme} (hsource : Lexer.LexedAs source.toList ts) {other : String}
    (hother : Lexer.LexedAs other.toList ts) (hblank : Text.allBlank other = false) :
    Expr.parse other = .ok e := by
  obtain ⟨-, tokens, c, htokens, hwhole⟩ := parse_eq_ok_iff.1 h
  obtain ⟨tokens₁, htokens₁, hlexemes⟩ := Lexer.tokens_of_lexedAs hsource
  obtain ⟨tokens₂, htokens₂, hlexemes'⟩ := Lexer.tokens_of_lexedAs hother
  rw [String.ofList_toList] at htokens₁ htokens₂
  obtain rfl : tokens = tokens₁ := Except.ok.inj (htokens.symm.trans htokens₁)
  have hstart : Cursor.Alongside [] ⟨tokens, 0⟩ ⟨tokens₂, 0⟩ :=
    ⟨⟨ts, hsource.eof_notMem, ⟨hlexemes, Nat.zero_le _⟩,
      ⟨by rw [List.append_nil, hlexemes'], Nat.zero_le _⟩⟩, Nat.le_refl 0⟩
  have hlength := hstart.length
  have hends : Parser.EndsText [] := .inl rfl
  have hinner := Parser.continues_inner hends (Nat.le.intro hlength.1.symm) maxNesting
  obtain ⟨hread, hend⟩ := Parser.toEnd_eq_ok_iff.1 hwhole
  obtain ⟨-, -, d', hd, ⟨hread', -⟩ | ⟨hmany, -⟩⟩ := hinner.expression hstart e c hread
  · have hwhole' : Parser.wholeExpression ⟨tokens₂, 0⟩ = .ok (e, d') :=
      Parser.toEnd_eq_ok_iff.2 ⟨hread', (hd.head_of_eof hend).2⟩
    exact parse_eq_ok_iff.2 ⟨hblank, tokens₂, d', htokens₂, hwhole'⟩
  · have hmax := hd.operators_le_max
    have hle := hd.operators_le
    simp only at hmany
    omega

end RuleGraph

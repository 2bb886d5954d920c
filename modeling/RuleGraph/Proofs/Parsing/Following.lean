import RuleGraph.Proofs.Parsing.Continuation
import RuleGraph.Proofs.Parsing.Course
/-!
# Parsing by position follows the parser

Every part that is read by position comes to the same as the parser of it at the tokens that are
left, and goes on by a token at least.
-/
namespace RuleGraph
namespace Indexed
open RuleGraph.Parser

variable {s : State} {n d : Nat}

namespace Chain

/-- A choice that sees one token only, which is not `eof`. -/
structure IsSingle (choice : Choice) : Prop where
  eq_single (c : Cursor) : choice c = (single choice c.head).map (·, false)
  single_eof : single choice .eof = none

def readsSingle : Chain → Bool
  | membership | eitherComparison | bothComparisons => false
  | _ => true

theorem isSingle_choice {C : Chain} (h : C.readsSingle) : IsSingle C.choice := by
  cases C
  case membership | eitherComparison | bothComparisons => cases h
  all_goals
    refine ⟨fun c => ?_, rfl⟩
    simp only [single, choice, coalesceChoice, orChoice, andChoice, equalityChoice, orderChoice,
      sumChoice, productChoice, commaChoice]
    generalize c.head = t
    cases t <;> rfl

/-- What is read of an operator: its tokens are passed, or nothing if none comes next. -/
inductive Reads (C : Chain) (s : State) :
    Option (Except ParseError (Option Operator) × State) → Prop
  | none {s' : State} (hchoice : C.choice s.cursor = none) (h : Reached 0 s s')
    (hcursor : s'.cursor = s.cursor) : Reads C s (some (.ok none, s'))
  | some {op : Operator} {double : Bool} {s' : State}
    (hchoice : C.choice s.cursor = some (op, double)) (h : Reached 1 s s')
    (hcursor : s'.cursor = bif double then s.cursor.next.next else s.cursor.next) :
    Reads C s (some (.ok (some op), s'))

theorem skip_operator (double : Bool) (rest : Parser Expr) (c : Cursor) : (do
    skip
    if double then skip
    rest : Parser Expr) c = rest (bif double then c.next.next else c.next) := by
  cases double <;> rfl

theorem reads_readSingle {C : Chain} (hC : C.readsSingle) (hs : s.Inside) :
    Reads C s (readSingle C.choice s) := by
  have hsingle := isSingle_choice hC
  have hchoice := hsingle.eq_single s.cursor
  rw [readSingle, peek_apply _ hs]
  cases hop : single C.choice s.cursor.head with
  | none =>
    rw [hop] at hchoice
    exact .none hchoice (.looked hs) rfl
  | some op =>
    rw [hop] at hchoice
    have hne : s.looked.cursor.head ≠ .eof := fun heof => by
      rw [State.cursor_looked] at heof
      rw [heof, hsingle.single_eof] at hop
      cases hop
    dsimp only
    rw [Follows.advance_bind _ hs.looked]
    exact .some hchoice (.trans (.looked hs) (.advance hs.looked hne))
      (hs.looked.looked.cursor_forward hne)

theorem reads_readBeforeComparison {B C : Chain} (hB : B.readsSingle)
    (hC : C.choice = beforeComparison B.choice) (hs : s.Inside) :
    Reads C s (readBeforeComparison B.choice s) := by
  have hsingle := isSingle_choice hB
  have hchoice : C.choice s.cursor = if s.cursor.second.isComparison
      then (single B.choice s.cursor.head).map (·, false) else none := by
    rw [hC, beforeComparison, hsingle.eq_single s.cursor]
  rw [readBeforeComparison, peek_apply _ hs]
  cases hop : single B.choice s.cursor.head with
  | none =>
    refine .none ?_ (.looked hs) rfl
    rw [hchoice, hop]
    exact ite_self none
  | some op =>
    dsimp only
    rw [peekAt_apply, hs.looked.lexemeAt_one, State.cursor_looked]
    rw [hop] at hchoice
    have hlooked : Reached 0 s s.looked.looked := .trans (.looked hs) (.looked hs.looked)
    split
    · next hcomparison =>
      rw [if_pos hcomparison] at hchoice
      have hne : s.looked.looked.cursor.head ≠ .eof := fun heof => by
        rw [State.cursor_looked, State.cursor_looked] at heof
        rw [heof, hsingle.single_eof] at hop
        cases hop
      rw [Follows.advance_bind _ hs.looked.looked]
      exact .some hchoice (hlooked.trans (.advance hs.looked.looked hne))
        (hs.looked.looked.looked.cursor_forward hne)
    · next hcomparison =>
      rw [if_neg hcomparison] at hchoice
      exact .none hchoice hlooked rfl

theorem ne_eof_of_membershipChoice {c : Cursor} {op : Operator} {double : Bool}
    (h : membershipChoice c = some (op, double)) :
    c.head ≠ .eof ∧ (double = true → c.second ≠ .eof) := by
  unfold membershipChoice at h
  split at h <;> simp_all

theorem forward_of_membershipChoice {op : Operator} {double : Bool}
    (h : membershipChoice s.cursor = some (op, double)) (hs : s.Inside) :
    Reached 1 s (s.forward (bif double then 2 else 1)) ∧
      (s.forward (bif double then 2 else 1)).cursor =
        bif double then s.cursor.next.next else s.cursor.next := by
  obtain ⟨hne, hsecond⟩ := ne_eof_of_membershipChoice h
  have hcursor := hs.cursor_forward hne
  have hs' := hs.forward hne
  cases double with
  | false => exact ⟨.forwardOne hs hne, hcursor⟩
  | true =>
    have hne' : (s.forward 1).cursor.head ≠ .eof := by
      rw [hcursor, hs.head_next hne]
      exact hsecond rfl
    have hpassed : ∀ t ∈ (s.tokens.drop s.pos).take 2, t.lexeme ≠ .eof := by
      rw [List.take_add (i := 1) (j := 1), List.drop_drop]
      intro t ht
      exact (List.mem_append.1 ht).elim (hs.take_one hne t) (hs'.take_one hne' t)
    have hlt : s.pos + 2 < s.tokens.length := hs'.succ_lt hne'
    exact ⟨(Reached.forward hlt hpassed).mono (Nat.le_succ 1),
      (hs'.cursor_forward hne').trans (congrArg Cursor.next hcursor)⟩

theorem ahead_bind {α : Type} (f : Cursor → Machine α) (hs : s.Inside) : (ahead >>= f) s =
    f ⟨[⟨s.cursor.head, 0⟩, ⟨s.cursor.second, 0⟩], 0⟩ s.looked.looked := by
  have hsecond : s.looked.lexemeAt 1 = s.cursor.second := hs.looked.lexemeAt_one
  rw [← hs.lexemeAt_zero, ← hsecond]
  rfl

theorem membershipChoice_ahead (c : Cursor) :
    membershipChoice ⟨[⟨c.head, 0⟩, ⟨c.second, 0⟩], 0⟩ = membershipChoice c := rfl

theorem reads_readMembership (hs : s.Inside) : Reads membership s (readMembership s) := by
  have hlooked : Reached 0 s s.looked.looked := .trans (.looked hs) (.looked hs.looked)
  have hinside := hs.looked.looked
  rw [readMembership, ahead_bind _ hs, membershipChoice_ahead]
  cases hchoice : membershipChoice s.cursor with
  | none => exact .none hchoice hlooked rfl
  | some found =>
    obtain ⟨op, double⟩ := found
    obtain ⟨hne, hsecond⟩ := ne_eof_of_membershipChoice hchoice
    have hpassed := hlooked.trans (.advance hinside hne)
    have hcursor := hinside.looked.cursor_forward hne
    dsimp only
    rw [Follows.advance_bind _ hinside]
    cases double with
    | false => exact .some hchoice hpassed hcursor
    | true =>
      have hne' : (s.looked.looked.looked.forward 1).cursor.head ≠ .eof := by
        rw [hcursor]
        exact hinside.looked.head_next hne ▸ hsecond rfl
      rw [if_pos rfl, Follows.advance_bind _ (hpassed.inside hs)]
      have hpassed' := hpassed.trans (.advance (hpassed.inside hs) hne')
      refine .some hchoice (hpassed'.mono (Nat.le_add_left ..)) ?_
      rw [(hpassed.inside hs).looked.cursor_forward hne', State.cursor_looked, hcursor]
      rfl

theorem reads_readOperator (C : Chain) (hs : s.Inside) : Reads C s (C.readOperator s) := by
  cases C with
  | membership => exact reads_readMembership hs
  | eitherComparison => exact reads_readBeforeComparison (B := disjunction) rfl rfl hs
  | bothComparisons => exact reads_readBeforeComparison (B := conjunction) rfl rfl hs
  | _ => exact reads_readSingle rfl hs

end Chain

/-! ## Calls

A part calls others that bind tighter until a token is passed, sixteen at most. The tokens that are
left and the rank of the part together measure how deep the calls can go.
-/

def Chain.rank : Chain → Nat
  | product => 5
  | sum => 6
  | membership => 7
  | order => 8
  | equality => 9
  | conjunction => 10
  | disjunction => 11
  | coalescence => 12
  | bothComparisons => 2
  | eitherComparison => 3
  | alternatives => 16

/-- How many calls inside each other are enough until a token is passed. -/
def Part.rank : Part → Nat
  | .deeper part => part.rank + 1
  | .conditional => 13
  | .chain C => C.rank
  | .signed => 4
  | .power => 3
  | .access => 2
  | .primary | .callRest _ | .comparison => 1
  | .intervalRest _ _ | .cellItem => 15
  | .objectRest => 2

theorem exists_succ {m rank calls : Nat} (h : m + (rank + 1) ≤ calls) :
    ∃ rest, calls = rest + 1 :=
  ⟨calls - 1, by omega⟩

/-- A part comes to the same as a parser where at most `n` tokens are left, with `rank` calls before
the next token. -/
def KeepsTo (part : Part) (parser : Parser Expr) (n d rank : Nat) : Prop :=
  ∀ ⦃s : State⦄ ⦃calls : Nat⦄, Ready n d s → 16 * s.left + rank ≤ calls →
    Follows 1 s (parse calls part s) (parser s.cursor)

/-- A chain goes on as long as the parser of it does, whose fuel lasts until the limit of operators
is reached. -/
theorem follows_operators {C : Chain} {operand : Parser Expr} {rank calls : Nat}
    (hoperand : KeepsTo C.operand operand n d rank) (hrank : rank ≤ 15) (fuel : Nat) (e : Expr)
    (hs : Ready n d s) (hfuel : 0 < fuel) (hlimit : maxOperators < fuel + s.operators)
    (hcalls : 16 * s.left + 1 ≤ calls) :
    Follows 0 s (loop calls (.operators C e) s)
      (Parser.chain C.choice operand fuel e s.cursor) := by
  induction fuel generalizing s e calls with
  | zero => exact absurd hfuel (Nat.lt_irrefl 0)
  | succ fuel ih =>
    obtain ⟨calls, rfl⟩ := exists_succ hcalls
    have hread := C.reads_readOperator hs.inside
    rw [loop, bind_apply, Parser.chain, get_bind]
    generalize C.readOperator s = run at hread ⊢
    cases hread with
    | none hchoice h hcursor =>
      rw [hchoice, ← hcursor]
      exact .after h (.pure (h.inside hs.inside) e)
    | @some op double s₁ hchoice h₁ hcursor =>
      rw [hchoice]
      change Follows 0 s _ ((do
          skip
          if double then skip
          Parser.countOperator
          let right ← operand
          Parser.chain C.choice operand fuel (.binary e op right) : Parser Expr) s.cursor)
      rw [Chain.skip_operator, ← hcursor]
      have hcounted : Reached 0 s₁ s₁.counted := .counted (h₁.inside hs.inside)
      have hs₁ := (hs.keep h₁).keep hcounted
      have hcalls₁ : 16 * s₁.counted.left + 15 ≤ calls :=
        h₁.affords hs.inside hcalls (Nat.le_refl 15)
      refine (Follows.after h₁ (.countOperator (h₁.inside hs.inside) fun hlt => ?_)).forget
      refine ((hoperand hs₁ (by omega)).bind fun right s₂ h₂ => ?_).forget
      have hle : s.operators ≤ s₁.operators := h₁.operators_le
      have hle' : s₁.operators + 1 ≤ s₂.operators := h₂.operators_le
      have hleft := h₂.left_le hs₁.inside
      exact ih _ (hs₁.keep h₂) (by omega) (by omega) (by omega)

theorem KeepsTo.chain {C : Chain} {operand : Parser Expr} {rank : Nat}
    (h : KeepsTo C.operand operand n d rank) (hrank : rank ≤ 15) :
    KeepsTo (.chain C) (level C.choice operand) n d (rank + 1) := by
  intro s calls hs hcalls
  obtain ⟨calls, rfl⟩ := exists_succ hcalls
  rw [parse]
  exact (h hs (Nat.le_of_succ_le_succ hcalls)).bind fun first s₁ h₁ =>
    follows_operators h hrank _ first (hs.keep h₁) (Nat.succ_pos _) (by omega)
      (h₁.affords hs.inside hcalls (by decide))

/-- The inner parsers are followed where at most `n` tokens are left. -/
structure InnerFollowed (inner : Inner) (n d : Nat) : Prop where
  expression : KeepsTo .expression inner.expression n d 14
  signed : KeepsTo (.deeper .signed) inner.signed n d 14
  bound : KeepsTo (.chain .sum) inner.bound n d 14

section
variable {inner : Inner} {calls : Nat} (hinner : InnerFollowed inner n d)
include hinner

theorem keepsTo_intervalRest (start : Expr) (startIncluded : Bool) :
    KeepsTo (.intervalRest start startIncluded)
      (Parser.intervalRest inner start startIncluded) n d 15 := by
  intro s calls hs hcalls
  obtain ⟨calls, rfl⟩ := exists_succ hcalls
  rw [parse]
  refine (hinner.bound hs (by omega)).bind fun stop s' h => ?_
  have hs' := h.inside hs.inside
  rw [peek_bind]
  refine .peek hs' ?_
  cases hhead : s'.cursor.head with
  | closeBracket | closeParen =>
    exact (Follows.advance hs'.looked hhead (by simp) fun s'' h' =>
      .pure (h'.inside hs'.looked) _).forget
  | _ => exact .refuse hs'.looked _

/-- A token is passed with every item, so that as much fuel as there are tokens is enough. -/
theorem follows_items {fuel : Nat} (items : List Expr) (hs : Ready n d s) (hfuel : s.left ≤ fuel)
    (hcalls : 16 * s.left + 1 ≤ calls) :
    Follows 1 s (loop calls (.items items) s) (closedItems inner fuel items s.cursor) := by
  induction fuel generalizing s items calls with
  | zero => exact absurd hs.inside.left_pos (Nat.not_lt_of_le hfuel)
  | succ fuel ih =>
    obtain ⟨calls, rfl⟩ := exists_succ hcalls
    -- Whether or not a comma stands behind the last item.
    have hclose {s : State} (hs : s.Inside) : Follows 1 s ((do
        expect .closeBracket .closeBracket
        return .array items : Machine Expr) s) (closedItems inner 0 items s.cursor) := by
      rw [closedItems_zero]
      refine .expect hs rfl _ fun s' h => ?_
      exact .pure (h.inside hs) _
    rw [loop, closedItems_succ]
    refine .eat hs.inside rfl (Nat.le_refl 1) (fun s₁ h₁ => ?_) fun _ => hclose hs.inside.looked
    have hs₁ := hs.keep h₁
    have hcalls₁ := h₁.affords hs.inside hcalls (Nat.le_succ 14)
    have hleft₁ := h₁.left_le hs.inside
    rw [peek_bind]
    refine .peek hs₁.inside ?_
    split
    · exact (hclose hs₁.inside.looked).forget
    · refine ((hinner.expression hs₁.looked hcalls₁).bind fun item s₂ h₂ => ?_).forget
      have hleft₂ : s₂.left + 1 ≤ s₁.left := h₂.left_le hs₁.inside.looked
      exact (ih (items ++ [item]) (hs₁.looked.keep h₂) (by omega) (by omega)).forget

omit hinner in
theorem follows_finishCall (f : Builtin) (args : List Expr) (hs : s.Inside) :
    Follows 0 s (finishCall f args s) ((if f.accepts args.length then return .call f args
      else throw (.invalidArity f args.length) : Parser Expr) s.cursor) := by
  unfold finishCall
  split
  · exact .pure hs _
  · exact .throw hs _

omit hinner in
theorem argumentsRest_succ_bind (fuel : Nat) (args : List Expr) (g : List Expr → Parser Expr) :
    argumentsRest inner (fuel + 1) args >>= g = (inner.expression >>= fun arg =>
      Parser.eat .closeParen >>= fun b => if b = true then g (args ++ [arg])
        else Parser.expect .comma .argumentEnd >>= fun _ =>
          argumentsRest inner fuel (args ++ [arg]) >>= g) := by
  rw [argumentsRest, bind_assoc]
  refine bind_congr fun arg => ?_
  rw [bind_assoc]
  refine bind_congr fun found => ?_
  cases found with
  | false => exact bind_assoc ..
  | true => exact pure_bind ..

theorem follows_arguments (f : Builtin) {fuel : Nat} (args : List Expr) (hs : Ready n d s)
    (hfuel : s.left ≤ fuel) (hcalls : 16 * s.left + 15 ≤ calls) :
    Follows 1 s (loop calls (.arguments f args) s) ((do
      let args ← argumentsRest inner fuel args
      if f.accepts args.length then return .call f args
      else throw (.invalidArity f args.length) : Parser Expr) s.cursor) := by
  induction fuel generalizing s args calls with
  | zero => exact absurd hs.inside.left_pos (Nat.not_lt_of_le hfuel)
  | succ fuel ih =>
    obtain ⟨calls, rfl⟩ := exists_succ hcalls
    rw [loop, argumentsRest_succ_bind]
    refine (hinner.expression hs (by omega)).bind fun arg s₁ h₁ => ?_
    have hs₁ := hs.keep h₁
    have hleft₁ := h₁.left_le hs.inside
    refine .eat hs₁.inside rfl (Nat.zero_le 1)
      (fun s₂ h₂ => follows_finishCall f _ (hs₁.keep h₂).inside) fun _ => ?_
    refine (Follows.expect hs₁.inside.looked rfl _ fun s₂ h₂ => ?_).forget
    have hleft₂ : s₂.left + 1 ≤ s₁.left := h₂.left_le hs₁.inside.looked
    exact (ih _ (hs₁.looked.keep h₂) (by omega) (by omega)).forget

omit hinner in
theorem entriesRest_succ (fuel : Nat) (entries : List (String × Expr)) (c : Cursor) :
    entriesRest inner (fuel + 1) entries c = (Parser.eat .closeBrace >>= fun b =>
      if b = true then pure (.object entries)
      else Parser.peek >>= fun t => match t with
        | .identifier key | .string key => do
          skip
          Parser.expect .colon .keyColon
          let value ← inner.expression
          if ← Parser.eat .comma then entriesRest inner fuel (entries ++ [(key, value)])
          else
            Parser.expect .closeBrace .closeBrace
            return .object (entries ++ [(key, value)])
        | _ => Parser.refuse .objectKey) c := by
  rw [entriesRest, peek_bind]
  cases hhead : c.head with
  | closeBrace =>
    rw [eat_then (by rw [hhead]; rfl)]
    rfl
  | _ => rw [eat_else (by rw [hhead]; rfl), peek_bind, hhead]

theorem follows_entries {fuel : Nat} (entries : List (String × Expr)) (hs : Ready n d s)
    (hfuel : s.left ≤ fuel) (hcalls : 16 * s.left + 1 ≤ calls) :
    Follows 1 s (loop calls (.entries entries) s) (entriesRest inner fuel entries s.cursor) := by
  induction fuel generalizing s entries calls with
  | zero => exact absurd hs.inside.left_pos (Nat.not_lt_of_le hfuel)
  | succ fuel ih =>
    obtain ⟨calls, rfl⟩ := exists_succ hcalls
    have hentry (key : String) {s : State} (hs : Ready n d s) (hfuel : s.left ≤ fuel)
        (hcalls : 16 * s.left + 15 ≤ calls) : Follows 0 s ((do
          expect .colon .keyColon
          let value ← parse calls .expression
          if ← eat .comma then loop calls (.entries (entries ++ [(key, value)]))
          else
            expect .closeBrace .closeBrace
            return .object (entries ++ [(key, value)]) : Machine Expr) s) ((do
          Parser.expect .colon .keyColon
          let value ← inner.expression
          if ← Parser.eat .comma then entriesRest inner fuel (entries ++ [(key, value)])
          else
            Parser.expect .closeBrace .closeBrace
            return .object (entries ++ [(key, value)]) : Parser Expr) s.cursor) := by
      refine (Follows.expect hs.inside rfl _ fun s₁ h₁ => ?_).forget
      have hs₁ := hs.keep h₁
      have hleft₁ := h₁.left_le hs.inside
      refine ((hinner.expression hs₁ (by omega)).bind fun value s₂ h₂ => ?_).forget
      have hs₂ := hs₁.keep h₂
      have hleft₂ := h₂.left_le hs₁.inside
      refine .eat hs₂.inside rfl (Nat.zero_le 1) (fun s₃ h₃ => ?_) fun _ => ?_
      · have hleft₃ := h₃.left_le hs₂.inside
        exact (ih _ (hs₂.keep h₃) (by omega) (by omega)).forget
      · refine (Follows.expect hs₂.inside.looked rfl _ fun s₃ h₃ => ?_).forget
        exact .pure (h₃.inside hs₂.inside.looked) _
    rw [loop, entriesRest_succ]
    refine .eat hs.inside rfl (Nat.le_refl 1) (fun s₁ h₁ => .pure (h₁.inside hs.inside) _)
      fun _ => ?_
    have hs' := hs.inside.looked
    rw [peek_bind]
    cases hhead : s.cursor.head with
    | identifier key | string key =>
      refine .advance hs' hhead (by simp) fun s₁ h₁ => ?_
      have hleft₁ : s₁.left + 1 ≤ s.left := h₁.left_le hs'
      exact hentry key (hs.looked.keep h₁) (by omega) (h₁.affords hs' hcalls (Nat.le_refl 15))
    | _ => exact .turnBack hs' (by rw [State.cursor_looked, hhead])

theorem follows_members {fuel : Nat} (e : Expr) (hs : Ready n d s) (hfuel : s.left ≤ fuel)
    (hcalls : 16 * s.left + 1 ≤ calls) :
    Follows 0 s (loop calls (.members e) s) (accessRest inner fuel e s.cursor) := by
  induction fuel generalizing s e calls with
  | zero => exact absurd hs.inside.left_pos (Nat.not_lt_of_le hfuel)
  | succ fuel ih =>
    obtain ⟨calls, rfl⟩ := exists_succ hcalls
    rw [loop, accessRest, peek_bind]
    refine .peek hs.inside ?_
    have hs' := hs.inside.looked
    cases hhead : s.cursor.head with
    | dot =>
      refine (Follows.advance hs' hhead (by simp) fun s₁ h₁ => ?_).forget
      have hs₁ := hs.looked.keep h₁
      have hleft₁ : s₁.left + 1 ≤ s.left := h₁.left_le hs'
      rw [peek_bind]
      cases hname : s₁.cursor.head with
      | identifier name =>
        refine (Follows.advance hs₁.inside hname (by simp) fun s₂ h₂ => ?_).forget
        have hleft₂ := h₂.left_le hs₁.inside
        exact ih _ (hs₁.keep h₂) (by omega) (by omega)
      | _ => exact .turnBack hs₁.inside (by rw [hname])
    | openBracket =>
      refine (Follows.advance hs' hhead (by simp) fun s₁ h₁ => ?_).forget
      have hs₁ := hs.looked.keep h₁
      have hleft₁ : s₁.left + 1 ≤ s.left := h₁.left_le hs'
      refine ((hinner.expression hs₁ (by omega)).bind fun key s₂ h₂ => ?_).forget
      have hs₂ := hs₁.keep h₂
      have hleft₂ := h₂.left_le hs₁.inside
      refine (Follows.expect hs₂.inside rfl _ fun s₃ h₃ => ?_).forget
      have hleft₃ := h₃.left_le hs₂.inside
      exact ih _ (hs₂.keep h₃) (by omega) (by omega)
    | _ => exact .pure hs' e

theorem keepsTo_callRest (name : String) :
    KeepsTo (.callRest name) (Parser.callRest inner name) n d 1 := by
  intro s calls hs hcalls
  obtain ⟨calls, rfl⟩ := exists_succ hcalls
  rw [parse, Parser.callRest]
  cases Builtin.ofName? name with
  | none => exact .throw hs.inside _
  | some f =>
    refine .expect hs.inside rfl _ fun s₁ h₁ => ?_
    have hs₁ := hs.keep h₁
    have hcalls₁ := h₁.affords hs.inside hcalls (Nat.le_refl 15)
    refine .eat hs₁.inside rfl (Nat.zero_le 1)
      (fun s₂ h₂ => follows_finishCall f [] (hs₁.keep h₂).inside) fun _ => ?_
    rw [left_bind, State.length_cursor]
    exact (follows_arguments hinner f [] hs₁.looked (Nat.le_refl _) hcalls₁).forget

theorem follows_parenRest (hs : Ready n d s) (hcalls : 16 * s.left + 14 ≤ calls) :
    Follows 1 s ((do
      let first ← parse calls .expression
      if ← eat .dots then parse calls (.intervalRest first false)
      else
        expect .closeParen .closeParen
        return first : Machine Expr) s) (parenRest inner s.cursor) := by
  refine (hinner.expression hs hcalls).bind fun first s₁ h₁ => ?_
  have hs₁ := hs.keep h₁
  have hcalls₁ := h₁.affords hs.inside (Nat.le_succ_of_le hcalls) (Nat.le_refl 15)
  refine .eat hs₁.inside rfl (Nat.zero_le 1) (fun s₂ h₂ => ?_) fun _ => ?_
  · have hcalls₂ := h₂.affords hs₁.inside (Nat.le_succ_of_le hcalls₁) (Nat.le_refl 15)
    exact (keepsTo_intervalRest hinner first false (hs₁.keep h₂) hcalls₂).forget
  · refine (Follows.expect hs₁.inside.looked rfl _ fun s₂ h₂ => ?_).forget
    exact .pure (h₂.inside hs₁.inside.looked) first

theorem follows_bracketRest (hs : Ready n d s) (hcalls : 16 * s.left + 14 ≤ calls) :
    Follows 1 s ((do
      if ← eat .closeBracket then return .array []
      else
        let first ← parse calls .expression
        if ← eat .dots then parse calls (.intervalRest first true)
        else loop calls (.items [first]) : Machine Expr) s) (bracketRest inner s.cursor) := by
  refine .eat hs.inside rfl (Nat.le_refl 1) (fun s₁ h₁ => .pure (h₁.inside hs.inside) _)
    fun _ => ?_
  have hs' := hs.looked
  refine (hinner.expression hs' hcalls).bind fun first s₁ h₁ => ?_
  have hs₁ := hs'.keep h₁
  have hcalls₁ := h₁.affords hs'.inside (Nat.le_succ_of_le hcalls) (Nat.le_refl 15)
  refine .eat hs₁.inside rfl (Nat.zero_le 1) (fun s₂ h₂ => ?_) fun _ => ?_
  · have hcalls₂ := h₂.affords hs₁.inside (Nat.le_succ_of_le hcalls₁) (Nat.le_refl 15)
    exact (keepsTo_intervalRest hinner first true (hs₁.keep h₂) hcalls₂).forget
  · rw [left_bind, State.length_cursor]
    exact (follows_items hinner [first] hs₁.looked (Nat.le_refl _)
      (h₁.affords hs'.inside (Nat.le_succ_of_le hcalls) (by decide))).forget

theorem keepsTo_primary : KeepsTo .primary (Parser.primary inner) (n + 1) d 1 := by
  intro s calls hs hcalls
  obtain ⟨calls, rfl⟩ := exists_succ hcalls
  rw [parse, Parser.primary, peek_bind]
  refine .peek hs.inside ?_
  have hs' := hs.inside.looked
  have hnext {s₁ : State} (h₁ : Reached 1 s.looked s₁) : 16 * s₁.left + 14 ≤ calls :=
    h₁.affords hs' hcalls (Nat.le_succ 14)
  cases hhead : s.cursor.head with
  | number | string | trueWord | falseWord | nullWord | dollar | hash =>
    exact .advance hs' hhead (by simp) fun s₁ h₁ => .pure (h₁.inside hs') _
  | identifier name =>
    refine .advance hs' hhead (by simp) fun s₁ h₁ => ?_
    have hs₁ := hs.looked.reached h₁
    rw [peek_bind]
    refine .peek hs₁.inside ?_
    split
    · exact (keepsTo_callRest hinner name hs₁.looked (h₁.affords hs' hcalls (by decide))).forget
    · exact .pure hs₁.inside.looked _
  | openParen =>
    exact .advance hs' hhead (by simp) fun s₁ h₁ =>
      (follows_parenRest hinner (hs.looked.reached h₁) (hnext h₁)).forget
  | openBracket =>
    exact .advance hs' hhead (by simp) fun s₁ h₁ =>
      (follows_bracketRest hinner (hs.looked.reached h₁) (hnext h₁)).forget
  | openBrace =>
    refine .advance hs' hhead (by simp) fun s₁ h₁ => ?_
    have hcalls₁ : 16 * s₁.left + 2 ≤ calls := h₁.affords hs' hcalls (by decide)
    obtain ⟨calls, rfl⟩ := exists_succ hcalls₁
    rw [parse, left_bind, State.length_cursor]
    exact (follows_entries hinner [] (hs.looked.reached h₁) (Nat.le_refl _)
      (Nat.le_of_succ_le_succ hcalls₁)).forget
  | _ => exact .refuse hs' _

theorem keepsTo_access : KeepsTo .access (Parser.access inner) (n + 1) d 2 := by
  intro s calls hs hcalls
  obtain ⟨calls, rfl⟩ := exists_succ hcalls
  rw [parse]
  refine (keepsTo_primary hinner hs (Nat.le_of_succ_le_succ hcalls)).bind fun e s₁ h₁ => ?_
  rw [left_bind, State.length_cursor]
  exact follows_members hinner e (hs.reached h₁) (Nat.le_refl _)
    (h₁.affords hs.inside hcalls (by decide))

theorem keepsTo_power : KeepsTo .power (Parser.power inner) (n + 1) d 3 := by
  intro s calls hs hcalls
  obtain ⟨calls, rfl⟩ := exists_succ hcalls
  rw [parse]
  refine (keepsTo_access hinner hs (Nat.le_of_succ_le_succ hcalls)).bind fun base s₁ h₁ => ?_
  have hs₁ := hs.reached h₁
  have hcalls₁ := h₁.affords hs.inside hcalls (Nat.le_succ 14)
  refine .eat hs₁.inside rfl (Nat.zero_le 1) (fun s₂ h₂ => ?_) fun _ => .pure hs₁.inside.looked _
  have hs₂ := hs₁.keep h₂
  have hcalls₂ := h₂.affords hs₁.inside (Nat.le_succ_of_le hcalls₁) (Nat.le_succ 14)
  exact ((hinner.signed hs₂ hcalls₂).map hs₂.inside _).forget

theorem keepsTo_signed : KeepsTo .signed (Parser.signed inner) (n + 1) d 4 := by
  intro s calls hs hcalls
  obtain ⟨calls, rfl⟩ := exists_succ hcalls
  rw [parse, Parser.signed, peek_bind]
  refine .peek hs.inside ?_
  have hs' := hs.inside.looked
  cases hhead : s.cursor.head with
  | notWord | bang | minus =>
    refine .advance hs' hhead (by simp) fun s₁ h₁ => ?_
    have hs₁ := hs.looked.reached h₁
    have hcalls₁ : 16 * s₁.left + 14 ≤ calls := h₁.affords hs' hcalls (Nat.le_succ 14)
    exact ((hinner.signed hs₁ hcalls₁).map hs₁.inside _).forget
  | _ => exact keepsTo_power hinner hs.looked (Nat.le_of_succ_le_succ hcalls)

omit hinner in
def Chain.parser (inner : Inner) : Chain → Parser Expr
  | coalescence => Parser.coalescence inner
  | disjunction => Parser.disjunction inner
  | conjunction => Parser.conjunction inner
  | equality => Parser.equality inner
  | order => Parser.order inner
  | membership => Parser.membership inner
  | sum => Parser.sum inner
  | product => Parser.product inner
  | eitherComparison => subjectComparisons inner
  | bothComparisons => level (beforeComparison andChoice) (subjectComparison inner)
  | alternatives => level commaChoice (Parser.cellItem inner)

theorem keepsTo_sum : KeepsTo (.chain .sum) (Parser.sum inner) (n + 1) d 6 :=
  .chain (C := .sum) (.chain (C := .product) (keepsTo_signed hinner) (by decide)) (by decide)

theorem keepsTo_comparison : KeepsTo .comparison (subjectComparison inner) (n + 1) d 1 := by
  intro s calls hs hcalls
  obtain ⟨calls, rfl⟩ := exists_succ hcalls
  rw [parse, subjectComparison, peek_bind]
  cases hhead : s.cursor.head with
  | equal | notEqual | less | lessEqual | greater | greaterEqual =>
    dsimp only
    rw [pure_bind]
    refine .advance hs.inside hhead (by simp) fun s₁ h₁ => ?_
    have hs₁ := hs.keep h₁
    have hcalls₁ : 16 * s₁.left + 6 ≤ calls := h₁.affords hs.inside hcalls (by decide)
    exact ((keepsTo_sum hinner hs₁ hcalls₁).map hs₁.inside _).forget
  | _ => exact .turnBack hs.inside (by rw [hhead]; rfl)

theorem keepsTo_chains {C : Chain} (hC : C ≠ .alternatives) :
    KeepsTo (.chain C) (C.parser inner) (n + 1) d C.rank := by
  have hproduct := KeepsTo.chain (C := .product) (keepsTo_signed hinner) (by decide)
  have hsum := hproduct.chain (C := .sum) (by decide)
  have hmembership := hsum.chain (C := .membership) (by decide)
  have horder := hmembership.chain (C := .order) (by decide)
  have hequality := horder.chain (C := .equality) (by decide)
  have hconjunction := hequality.chain (C := .conjunction) (by decide)
  have hdisjunction := hconjunction.chain (C := .disjunction) (by decide)
  have hboth := KeepsTo.chain (C := .bothComparisons) (keepsTo_comparison hinner) (by decide)
  cases C with
  | product => exact hproduct
  | sum => exact hsum
  | membership => exact hmembership
  | order => exact horder
  | equality => exact hequality
  | conjunction => exact hconjunction
  | disjunction => exact hdisjunction
  | coalescence => exact hdisjunction.chain (C := .coalescence) (by decide)
  | bothComparisons => exact hboth
  | eitherComparison => exact hboth.chain (C := .eitherComparison) (by decide)
  | alternatives => exact (hC rfl).elim

theorem keepsTo_cellItem : KeepsTo .cellItem (Parser.cellItem inner) n d 15 := by
  intro s calls hs hcalls
  obtain ⟨calls, rfl⟩ := exists_succ hcalls
  rw [parse, Parser.cellItem, get_bind]
  refine .peek hs.inside ?_
  split
  · have hs' := hs.looked.mono (Nat.le_succ n)
    have hcalls' : 16 * s.left + 3 ≤ calls := by omega
    exact keepsTo_chains hinner (C := .eitherComparison) (by simp) hs' hcalls'
  · have hs' : Ready n d s.looked.looked.looked := hs.looked.looked.looked
    rw [Chain.ahead_bind _ hs.looked.inside, Chain.membershipChoice_ahead, State.cursor_looked]
    refine .later (.looked hs.looked.inside) (.later (.looked hs.looked.looked.inside) ?_)
    cases hchoice : membershipChoice s.cursor with
    | none =>
      have hcalls' : 16 * s.left + 14 ≤ calls := Nat.le_of_succ_le_succ hcalls
      exact (hinner.expression hs' hcalls').map hs'.inside _
    | some found =>
      obtain ⟨op, double⟩ := found
      obtain ⟨hreached, hcursor⟩ :=
        Chain.forward_of_membershipChoice (s := s.looked.looked.looked) hchoice hs'.inside
      simp only [State.cursor_looked] at hcursor
      refine .after hreached ?_
      change Follows 0 _ ((parse calls (.chain .sum) >>= fun e =>
        pure (.binary .subject op e)) _) ((do
          skip
          if double then skip
          return .binary .subject op (← Parser.sum inner) : Parser Expr) s.cursor)
      rw [Chain.skip_operator, ← hcursor]
      have hs'' := hs'.keep hreached
      have hsum := keepsTo_sum hinner (hs''.mono (Nat.le_succ n))
        (hreached.affords hs'.inside hcalls (by decide))
      exact (hsum.map hs''.inside _).forget

theorem keepsTo_alternatives :
    KeepsTo (.chain .alternatives) (level commaChoice (Parser.cellItem inner)) n d 16 :=
  .chain (C := .alternatives) (keepsTo_cellItem hinner) (by decide)

theorem keepsTo_conditional : KeepsTo .conditional (Parser.conditional inner) (n + 1) d 13 := by
  intro s calls hs hcalls
  obtain ⟨calls, rfl⟩ := exists_succ hcalls
  have hcalls' : 16 * s.left + 12 ≤ calls := Nat.le_of_succ_le_succ hcalls
  rw [parse]
  have hcondition := keepsTo_chains hinner (C := .coalescence) (by simp) hs hcalls'
  refine hcondition.bind fun condition s₁ h₁ => ?_
  have hs₁ := hs.reached h₁
  have hleft₁ := h₁.left_le hs.inside
  refine .eat hs₁.inside rfl (Nat.zero_le 1) (fun s₂ h₂ => ?_) fun _ => .pure hs₁.inside.looked _
  have hs₂ := hs₁.keep h₂
  have hleft₂ := h₂.left_le hs₁.inside
  refine ((hinner.expression hs₂ (by omega)).bind fun yes s₃ h₃ => ?_).forget
  have hs₃ := hs₂.keep h₃
  have hleft₃ := h₃.left_le hs₂.inside
  refine (Follows.expect hs₃.inside rfl _ fun s₄ h₄ => ?_).forget
  have hs₄ := hs₃.keep h₄
  have hleft₄ := h₄.left_le hs₃.inside
  exact ((hinner.expression hs₄ (by omega)).map hs₄.inside _).forget

end

def nested (parser : (depth : Nat) → Parser Expr) : (depth : Nat) → Parser Expr
  | 0 => Parser.fail .tooDeep
  | depth + 1 => parser depth

theorem inner_succ (fuel depth : Nat) : Parser.inner (fuel + 1) depth =
    ⟨nested (fun depth => Parser.conditional (Parser.inner fuel depth)) depth,
      nested (fun depth => Parser.signed (Parser.inner fuel depth)) depth,
      Parser.sum (Parser.inner fuel depth)⟩ := by
  cases depth <;> rfl

theorem Followed.exited {s' : State} {events : List Event} (h : Followed s.entered s' events) :
    Followed s s'.exited events where
  events_eq := h.events_eq
  trail := h.trail
  tokens_eq := h.tokens_eq
  nesting_eq := congrArg (· - 1) h.nesting_eq

theorem Follows.exited {run : Option (Except ParseError Expr × State)}
    {outcome : Except ParseError (Expr × Cursor)} (h : Follows 1 s.entered run outcome) :
    Follows 1 s (run >>= fun r => Pure.pure (r.1, r.2.exited)) outcome := by
  cases h with
  | @ok e s' h =>
    obtain ⟨events, hfollowed, hback⟩ := h.followed
    have hexited : Reached 1 s s'.exited :=
      ⟨h.pos_le, h.operators_le, events, hfollowed.exited, hback⟩
    exact .ok hexited
  | error h =>
    obtain ⟨events, hfollowed⟩ := h
    exact .error ⟨events, hfollowed.exited⟩

theorem follows_deeper {part : Part} {parser : Nat → Parser Expr} {calls rank : Nat}
    (hs : s.Inside) (hcalls : 16 * s.left + (rank + 1) ≤ calls)
    (h : ∀ depth calls, maxNesting - s.nesting = depth + 1 → 16 * s.left + rank ≤ calls →
      Follows 1 s.entered (parse calls part s.entered) (parser depth s.cursor)) :
    Follows 1 s (parse calls (.deeper part) s)
      (nested parser (maxNesting - s.nesting) s.cursor) := by
  obtain ⟨calls, rfl⟩ := exists_succ hcalls
  rw [parse]
  dsimp only
  cases hdepth : maxNesting - s.nesting with
  | zero =>
    have hmore : maxNesting < s.entered.nesting := Nat.lt_succ_of_le (Nat.le_of_sub_eq_zero hdepth)
    rw [if_pos hmore]
    exact .fail hs _
  | succ depth =>
    have hmore : ¬maxNesting < s.entered.nesting := by
      change ¬maxNesting < s.nesting + 1
      omega
    rw [if_neg hmore]
    exact (h depth calls hdepth (Nat.le_of_succ_le_succ hcalls)).exited

/-- Each inner parser is used behind a token, so that the tokens that are left are enough. -/
theorem innerFollowed (fuel d : Nat) :
    InnerFollowed (Parser.inner fuel (maxNesting - d)) fuel d := by
  induction fuel generalizing d with
  | zero =>
    have hleft {s : State} (hs : Ready 0 d s) : False :=
      absurd hs.inside.left_pos (Nat.not_lt_of_le hs.left_le)
    exact ⟨fun _ _ hs _ => (hleft hs).elim, fun _ _ hs _ => (hleft hs).elim,
      fun _ _ hs _ => (hleft hs).elim⟩
  | succ fuel ih =>
    have hdeeper {part : Part} {parser : Inner → Parser Expr} {rank : Nat} (hrank : rank ≤ 13)
        (h : ∀ {inner : Inner}, InnerFollowed inner fuel (d + 1) →
          KeepsTo part (parser inner) (fuel + 1) (d + 1) rank) :
        KeepsTo (.deeper part)
          (nested (fun depth => parser (Parser.inner fuel depth)) (maxNesting - d))
          (fuel + 1) d 14 := by
      intro s calls hs hcalls
      rw [← hs.nesting_eq]
      have hcalls' : 16 * s.left + (rank + 1) ≤ calls := by omega
      refine follows_deeper hs.inside hcalls' fun depth calls hdepth hcalls => ?_
      have hih := ih (d + 1)
      rw [← hs.nesting_eq, show maxNesting - (s.nesting + 1) = depth by omega] at hih
      rw [← hs.nesting_eq] at h
      exact h hih ⟨hs.inside.entered, hs.left_le, rfl⟩ hcalls
    rw [inner_succ]
    exact ⟨hdeeper (Nat.le_refl 13) keepsTo_conditional, hdeeper (by decide) keepsTo_signed,
      fun _ _ hs hcalls => keepsTo_sum (ih d) hs (by omega)⟩

/-- The parser that a part follows, where `depth` more levels of nesting are allowed. -/
def Part.parser (fuel : Nat) : Part → (depth : Nat) → Parser Expr
  | .deeper part, depth => nested (part.parser fuel) depth
  | .conditional, depth => Parser.conditional (Parser.inner fuel depth)
  | .chain C, depth => C.parser (Parser.inner fuel depth)
  | .signed, depth => Parser.signed (Parser.inner fuel depth)
  | .power, depth => Parser.power (Parser.inner fuel depth)
  | .access, depth => Parser.access (Parser.inner fuel depth)
  | .primary, depth => Parser.primary (Parser.inner fuel depth)
  | .intervalRest start startIncluded, depth =>
    Parser.intervalRest (Parser.inner fuel depth) start startIncluded
  | .objectRest, depth => do entriesRest (Parser.inner fuel depth) (← left) []
  | .callRest name, depth => Parser.callRest (Parser.inner fuel depth) name
  | .cellItem, depth => Parser.cellItem (Parser.inner fuel depth)
  | .comparison, depth => subjectComparison (Parser.inner fuel depth)

/-- Every part comes to the same as the parser of it, and passes a token if it comes to a result. -/
theorem follows_part (part : Part) {fuel calls : Nat} (hs : s.Inside) (hfuel : s.left ≤ fuel)
    (hcalls : 16 * s.left + part.rank ≤ calls) :
    Follows 1 s (parse calls part s) (part.parser fuel (maxNesting - s.nesting) s.cursor) := by
  have hinner (s : State) := innerFollowed fuel s.nesting
  have hready {s : State} (hs : s.Inside) (hfuel : s.left ≤ fuel) : Ready fuel s.nesting s :=
    ⟨hs, hfuel, rfl⟩
  have hmore {s : State} (hs : s.Inside) (hfuel : s.left ≤ fuel) : Ready (fuel + 1) s.nesting s :=
    ⟨hs, Nat.le_succ_of_le hfuel, rfl⟩
  induction part generalizing s calls with
  | deeper part ih =>
    refine follows_deeper hs hcalls fun depth calls hdepth hcalls => ?_
    have hpart := ih hs.entered hfuel hcalls
    have hnesting : maxNesting - s.entered.nesting = depth := by
      change maxNesting - (s.nesting + 1) = depth
      omega
    rw [hnesting] at hpart
    exact hpart
  | conditional => exact keepsTo_conditional (hinner s) (hmore hs hfuel) hcalls
  | chain C =>
    by_cases hC : C = .alternatives
    · subst hC
      exact keepsTo_alternatives (hinner s) (hready hs hfuel) hcalls
    · exact keepsTo_chains (hinner s) hC (hmore hs hfuel) hcalls
  | signed => exact keepsTo_signed (hinner s) (hmore hs hfuel) hcalls
  | power => exact keepsTo_power (hinner s) (hmore hs hfuel) hcalls
  | access => exact keepsTo_access (hinner s) (hmore hs hfuel) hcalls
  | primary => exact keepsTo_primary (hinner s) (hmore hs hfuel) hcalls
  | intervalRest start startIncluded =>
    exact keepsTo_intervalRest (hinner s) start startIncluded (hready hs hfuel) hcalls
  | objectRest =>
    obtain ⟨calls, rfl⟩ := exists_succ hcalls
    rw [parse, Part.parser, left_bind, State.length_cursor]
    exact follows_entries (hinner s) [] (hready hs hfuel) (Nat.le_refl _)
      (Nat.le_of_succ_le_succ hcalls)
  | callRest name => exact keepsTo_callRest (hinner s) name (hready hs hfuel) hcalls
  | cellItem => exact keepsTo_cellItem (hinner s) (hready hs hfuel) hcalls
  | comparison => exact keepsTo_comparison (hinner s) (hmore hs hfuel) hcalls

end Indexed
end RuleGraph

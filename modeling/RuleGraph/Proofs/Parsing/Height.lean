import RuleGraph.Proofs.Parsing.DeepBrackets
/-!
# How high a parsed expression is

Each expression on a way down from a parsed one is paid for by an operator that the parser has
counted or by a level of nesting that it has entered, unless it is a member access that the way
leaves by its base or an interval that the way leaves by its end. For these the parser counts
nothing, so that there may be any number of them.
-/
namespace RuleGraph

namespace Expr

mutual

/-- The number of expressions on the longest way down. -/
def height : Expr → Nat
  | .literal _ | .field _ | .subject | .element => 1
  | .index base key => max base.height key.height + 1
  | .binary left _ right => max left.height right.height + 1
  | .unary _ operand => operand.height + 1
  | .call _ args => allHeight args + 1
  | .ternary condition yes no => max condition.height (max yes.height no.height) + 1
  | .array items => allHeight items + 1
  | .object entries => entriesHeight entries + 1
  | .interval start stop _ _ => max start.height stop.height + 1
termination_by structural e => e

def allHeight : List Expr → Nat
  | [] => 0
  | e :: rest => max e.height (allHeight rest)
termination_by structural es => es

def entriesHeight : List (String × Expr) → Nat
  | [] => 0
  | (_, e) :: rest => max e.height (entriesHeight rest)
termination_by structural entries => entries

end

mutual

/-- The greatest number of steps on a way down that the parser counts nothing for: from a member
access to its base and from an interval to its end. -/
def uncounted : Expr → Nat
  | .literal _ | .field _ | .subject | .element => 0
  | .index base key => max (base.uncounted + 1) key.uncounted
  | .binary left _ right => max left.uncounted right.uncounted
  | .unary _ operand => operand.uncounted
  | .call _ args => allUncounted args
  | .ternary condition yes no => max condition.uncounted (max yes.uncounted no.uncounted)
  | .array items => allUncounted items
  | .object entries => entriesUncounted entries
  | .interval start stop _ _ => max start.uncounted (stop.uncounted + 1)
termination_by structural e => e

def allUncounted : List Expr → Nat
  | [] => 0
  | e :: rest => max e.uncounted (allUncounted rest)
termination_by structural es => es

def entriesUncounted : List (String × Expr) → Nat
  | [] => 0
  | (_, e) :: rest => max e.uncounted (entriesUncounted rest)
termination_by structural entries => entries

end

theorem height_pos (e : Expr) : 0 < e.height := by
  cases e <;> exact Nat.succ_pos _

theorem allHeight_append (es fs : List Expr) :
    allHeight (es ++ fs) = max (allHeight es) (allHeight fs) := by
  induction es with
  | nil => simp [allHeight]
  | cons e rest ih => simp only [List.cons_append, allHeight, ih, Nat.max_assoc]

theorem allUncounted_append (es fs : List Expr) :
    allUncounted (es ++ fs) = max (allUncounted es) (allUncounted fs) := by
  induction es with
  | nil => simp [allUncounted]
  | cons e rest ih => simp only [List.cons_append, allUncounted, ih, Nat.max_assoc]

theorem entriesHeight_append (es fs : List (String × Expr)) :
    entriesHeight (es ++ fs) = max (entriesHeight es) (entriesHeight fs) := by
  induction es with
  | nil => simp [entriesHeight]
  | cons e rest ih => simp only [List.cons_append, entriesHeight, ih, Nat.max_assoc]

theorem entriesUncounted_append (es fs : List (String × Expr)) :
    entriesUncounted (es ++ fs) = max (entriesUncounted es) (entriesUncounted fs) := by
  induction es with
  | nil => simp [entriesUncounted]
  | cons e rest ih => simp only [List.cons_append, entriesUncounted, ih, Nat.max_assoc]

/-- The height is paid for by `n` operators, by `k` and by the steps that count nothing; the end of
an interval takes two. -/
def Within (k n : Nat) (e : Expr) : Prop :=
  e.height ≤ n + k + 2 * e.uncounted

def AllWithin (k n : Nat) (es : List Expr) : Prop :=
  allHeight es ≤ n + k + 2 * allUncounted es

def EntriesWithin (k n : Nat) (entries : List (String × Expr)) : Prop :=
  entriesHeight entries ≤ n + k + 2 * entriesUncounted entries

variable {k k' n n' : Nat} {e left right : Expr}

theorem Within.mono (h : e.Within k n) (hk : k ≤ k') (hn : n ≤ n') : e.Within k' n' := by
  unfold Within at *
  omega

theorem Within.binary (hleft : left.Within k n) (hright : right.Within k n') (op : Operator) :
    (Expr.binary left op right).Within k (n + 1 + n') := by
  simp only [Within, height, uncounted] at *
  omega

end Expr

namespace Parser
variable {α β : Type} {P : Nat → α → Prop} {Q : Nat → β → Prop}

/-- A parser counts no more operators than the limit allows, and of their number and of what it
makes `P` holds. -/
def Counts (p : Parser α) (P : Nat → α → Prop) : Prop :=
  ∀ c a d, c.operators ≤ maxOperators → p c = .ok (a, d) →
    ∃ n, d.operators = c.operators + n ∧ d.operators ≤ maxOperators ∧ P n a

namespace Counts

theorem pure {a : α} (h : P 0 a) : Counts (Pure.pure a) P := by
  rintro c _ _ hc ⟨⟩
  exact ⟨0, rfl, hc, h⟩

theorem bind {p : Parser α} {f : α → Parser β} (hp : Counts p P)
    (hf : ∀ n a, P n a → Counts (f a) fun m b => Q (n + m) b) : Counts (p >>= f) Q := by
  intro c b d hc h
  obtain ⟨⟨a, c'⟩, hpa, hfb⟩ := bind_eq_ok.1 (show (p c >>= fun r => f r.1 r.2) = _ from h)
  obtain ⟨n, hn, hc', hP⟩ := hp c a c' hc hpa
  obtain ⟨m, hm, hd, hQ⟩ := hf n a hP c' b d hc' hfb
  exact ⟨n + m, by omega, hd, hQ⟩

theorem after {p : Parser α} {f : α → Parser β} (hp : Counts p fun n _ => n = 0)
    (hf : ∀ a, Counts (f a) Q) : Counts (p >>= f) Q :=
  hp.bind fun n a hn => by
    subst hn
    simpa only [Nat.zero_add] using hf a

theorem imp {p : Parser α} {P' : Nat → α → Prop} (h : Counts p P)
    (hP : ∀ n a, P n a → P' n a) : Counts p P' := fun c a d hc hp =>
  let ⟨n, hn, hd, hPa⟩ := h c a d hc hp
  ⟨n, hn, hd, hP n a hPa⟩

theorem of_zero_add {p : Parser α} (h : Counts p fun n a => P (0 + n) a) : Counts p P := by
  simpa only [Nat.zero_add] using h

theorem of_add_assoc {p : Parser α} {n m : Nat} (h : Counts p fun l a => P (n + m + l) a) :
    Counts p fun l a => P (n + (m + l)) a := by
  simpa only [Nat.add_assoc] using h

theorem of_error {p : Parser α} (h : ∀ c, ∃ x, p c = .error x) : Counts p P := by
  intro c a d _ hp
  obtain ⟨x, hx⟩ := h c
  rw [hx] at hp
  cases hp

end Counts

theorem counts_skip : Counts skip fun n _ => n = 0 := by
  rintro c _ _ hc ⟨⟩
  exact ⟨0, c.next_operators, by rwa [c.next_operators], rfl⟩

theorem counts_peek : Counts peek fun n _ => n = 0 := by
  rintro c _ _ hc ⟨⟩
  exact ⟨0, rfl, hc, rfl⟩

theorem counts_get : Counts (get : Parser Cursor) fun n _ => n = 0 := by
  rintro c _ _ hc ⟨⟩
  exact ⟨0, rfl, hc, rfl⟩

theorem counts_left : Counts left fun n _ => n = 0 := by
  rintro c _ _ hc ⟨⟩
  exact ⟨0, rfl, hc, rfl⟩

theorem counts_refuse (what : Expected) : Counts (refuse what) P :=
  .of_error fun _ => ⟨_, rfl⟩

theorem counts_fail (fault : Fault) : Counts (fail fault) P :=
  .of_error fun _ => ⟨_, rfl⟩

theorem counts_throw (x : ParseError) : Counts (throw x) P :=
  .of_error fun _ => ⟨x, rfl⟩

theorem counts_eat (t : Lexeme) : Counts (eat t) fun n _ => n = 0 := by
  intro c a d hc h
  unfold eat at h
  split at h <;> cases h
  · exact ⟨0, c.next_operators, by rwa [c.next_operators], rfl⟩
  · exact ⟨0, rfl, hc, rfl⟩

theorem counts_expect (t : Lexeme) (what : Expected) : Counts (expect t what) fun n _ => n = 0 := by
  refine (counts_eat t).after fun found => ?_
  split
  · exact .pure rfl
  · exact counts_refuse what

theorem counts_countOperator : Counts countOperator fun n _ => n = 1 := by
  intro c a d _ h
  unfold countOperator at h
  split at h <;> cases h
  exact ⟨1, rfl, by simp only; omega, rfl⟩

open RuleGraph.Expr

variable {k n : Nat} {e : Expr}

/-- Each operator of a chain pays for the expression that it makes. -/
theorem counts_chain {choice : Choice} {operand : Parser Expr}
    (hoperand : Counts operand (Within k)) (fuel : Nat) (he : e.Within k n) :
    Counts (chain choice operand fuel e) fun m e' => e'.Within k (n + m) := by
  induction fuel generalizing n e with
  | zero => exact .pure he
  | succ fuel ih =>
    refine counts_get.after fun c => ?_
    split
    · exact .pure he
    · next op double _ =>
      have hcount : Counts (do
          countOperator
          let right ← operand
          chain choice operand fuel (.binary e op right)) fun m e' => e'.Within k (n + m) := by
        refine counts_countOperator.bind fun _ _ hone => ?_
        subst hone
        refine hoperand.bind fun m right hright => ?_
        refine (ih (he.binary hright op)).imp fun _ _ h => h.mono (Nat.le_refl k) (by omega)
      refine counts_skip.after fun _ => ?_
      cases double with
      | true => exact counts_skip.after fun _ => hcount
      | false => exact hcount

theorem counts_level {choice : Choice} {operand : Parser Expr}
    (hoperand : Counts operand (Within k)) : Counts (level choice operand) (Within k) :=
  hoperand.bind fun _ _ he => counts_chain hoperand _ he

theorem height_atom? {t : Lexeme} (h : atom? t = some e) : e.height = 1 := by
  cases t <;> cases h <;> rfl

/-- What the inner parsers make with `d` levels of nesting. -/
structure Inner.Bounded (inner : Inner) (d : Nat) : Prop where
  expression : Counts inner.expression (Within (3 * d))
  signed : Counts inner.signed (Within (3 * d))
  bound : Counts inner.bound (Within (3 * d + 2))

section
variable {inner : Inner} {d : Nat} (hinner : inner.Bounded d)
include hinner

theorem counts_intervalRest {start : Expr} (hstart : start.Within (3 * d) n)
    (startIncluded : Bool) : Counts (intervalRest inner start startIncluded) fun m e =>
      e.Within (3 * d + 1) (n + m) := by
  have hinterval {m : Nat} {stop : Expr} (hstop : stop.Within (3 * d + 2) m) (i j : Bool) :
      (Expr.interval start stop i j).Within (3 * d + 1) (n + m) := by
    simp only [Within, height, uncounted] at *
    omega
  refine hinner.bound.bind fun m stop hstop => counts_peek.after fun t => ?_
  split
  · exact counts_skip.after fun _ => .pure (hinterval hstop _ _)
  · exact counts_skip.after fun _ => .pure (hinterval hstop _ _)
  · exact counts_refuse _

theorem counts_itemsRest (fuel : Nat) {items : List Expr} (hitems : AllWithin (3 * d) n items) :
    Counts (itemsRest inner fuel items) fun m es => AllWithin (3 * d) (n + m) es := by
  induction fuel generalizing n items with
  | zero => exact .pure hitems
  | succ fuel ih =>
    refine (counts_eat _).after fun found => ?_
    split
    · refine counts_peek.after fun t => ?_
      split
      · exact .pure hitems
      · refine hinner.expression.bind fun m item hitem => ?_
        refine .of_add_assoc (ih ?_)
        simp only [AllWithin, Within, allHeight_append, allUncounted_append, allHeight,
          allUncounted] at *
        omega
    · exact .pure hitems

theorem counts_argumentsRest (fuel : Nat) {args : List Expr} (hargs : AllWithin (3 * d) n args) :
    Counts (argumentsRest inner fuel args) fun m es => AllWithin (3 * d) (n + m) es := by
  induction fuel generalizing n args with
  | zero => exact .pure hargs
  | succ fuel ih =>
    refine hinner.expression.bind fun m arg harg => ?_
    have hmore : AllWithin (3 * d) (n + m) (args ++ [arg]) := by
      simp only [AllWithin, Within, allHeight_append, allUncounted_append, allHeight,
        allUncounted] at *
      omega
    refine (counts_eat _).after fun found => ?_
    split
    · exact .pure hmore
    · refine (counts_expect _ _).after fun _ => ?_
      exact .of_add_assoc (ih hmore)

theorem counts_entriesRest (fuel : Nat) {entries : List (String × Expr)}
    (hentries : EntriesWithin (3 * d) n entries) :
    Counts (entriesRest inner fuel entries) fun m e => e.Within (3 * d + 1) (n + m) := by
  have hobject {n : Nat} {entries : List (String × Expr)}
      (h : EntriesWithin (3 * d) n entries) : (Expr.object entries).Within (3 * d + 1) n := by
    simp only [EntriesWithin, Within, height, uncounted] at *
    omega
  induction fuel generalizing n entries with
  | zero => exact .pure (hobject hentries)
  | succ fuel ih =>
    have hentry (key : String) : Counts (do
        skip
        expect .colon .keyColon
        let value ← inner.expression
        let entries := entries ++ [(key, value)]
        if ← eat .comma then entriesRest inner fuel entries
        else
          expect .closeBrace .closeBrace
          return .object entries) fun m e => e.Within (3 * d + 1) (n + m) := by
      refine counts_skip.after fun _ => (counts_expect _ _).after fun _ => ?_
      refine hinner.expression.bind fun m value hvalue => ?_
      have hmore : EntriesWithin (3 * d) (n + m) (entries ++ [(key, value)]) := by
        simp only [EntriesWithin, Within, entriesHeight_append, entriesUncounted_append,
          entriesHeight, entriesUncounted] at *
        omega
      refine (counts_eat _).after fun found => ?_
      split
      · exact .of_add_assoc (ih hmore)
      · exact (counts_expect _ _).after fun _ => .pure (hobject hmore)
    refine counts_peek.after fun t => ?_
    split
    · exact counts_skip.after fun _ => .pure (hobject hentries)
    · exact hentry _
    · exact hentry _
    · exact counts_refuse _

theorem counts_bracketRest : Counts (bracketRest inner) (Within (3 * d + 1)) := by
  have harray {n : Nat} {items : List Expr} (h : AllWithin (3 * d) n items) :
      (Expr.array items).Within (3 * d + 1) n := by
    simp only [AllWithin, Within, height, uncounted] at *
    omega
  refine (counts_eat _).after fun found => ?_
  split
  · exact .pure (harray (Nat.zero_le _))
  · refine hinner.expression.bind fun n first hfirst => (counts_eat _).after fun found => ?_
    split
    · exact counts_intervalRest hinner hfirst true
    · refine counts_left.after fun fuel => ?_
      have hitems : AllWithin (3 * d) n [first] := by
        simp only [AllWithin, Within, allHeight, allUncounted] at *
        omega
      refine (counts_itemsRest hinner fuel hitems).bind fun m items hitems => ?_
      exact (counts_expect _ _).after fun _ => .pure (harray hitems)

theorem counts_parenRest : Counts (parenRest inner) (Within (3 * d + 1)) := by
  refine hinner.expression.bind fun n first hfirst => (counts_eat _).after fun found => ?_
  split
  · exact counts_intervalRest hinner hfirst false
  · exact (counts_expect _ _).after fun _ => .pure (hfirst.mono (by omega) (Nat.le_refl n))

theorem counts_callRest (name : String) : Counts (callRest inner name) (Within (3 * d + 1)) := by
  have hnone : AllWithin (3 * d) 0 [] := Nat.zero_le _
  unfold callRest
  split
  · exact counts_throw _
  · next f _ =>
    refine (counts_expect _ _).after fun _ => (counts_eat _).after fun found => ?_
    have hcall {n : Nat} {args : List Expr} (h : AllWithin (3 * d) n args) :
        Counts (if f.accepts args.length then Pure.pure (Expr.call f args)
          else throw (.invalidArity f args.length)) fun m e => e.Within (3 * d + 1) (n + m) := by
      split
      · refine .pure ?_
        simp only [AllWithin, Within, height, uncounted] at *
        omega
      · exact counts_throw _
    split
    · exact .of_zero_add (hcall hnone)
    · refine counts_left.after fun fuel => ?_
      exact .bind (.of_zero_add (counts_argumentsRest hinner fuel hnone)) fun m args hargs =>
        hcall hargs

theorem counts_primary : Counts (primary inner) (Within (3 * d + 1)) := by
  refine counts_peek.after fun t => ?_
  split
  · next e hatom =>
    refine counts_skip.after fun _ => .pure ?_
    rw [Within, height_atom? hatom]
    omega
  · refine counts_skip.after fun _ => counts_peek.after fun t => ?_
    split
    · exact counts_callRest hinner _
    · exact .pure (Nat.le_add_left 1 _)
  · exact counts_skip.after fun _ => counts_parenRest hinner
  · exact counts_skip.after fun _ => counts_bracketRest hinner
  · have hnone : EntriesWithin (3 * d) 0 [] := Nat.zero_le _
    exact counts_skip.after fun _ => counts_left.after fun fuel =>
      .of_zero_add (counts_entriesRest hinner fuel hnone)
  · exact counts_refuse _

theorem counts_accessRest (fuel : Nat) (he : e.Within (3 * d + 1) n) :
    Counts (accessRest inner fuel e) fun m e' => e'.Within (3 * d + 1) (n + m) := by
  induction fuel generalizing n e with
  | zero => exact .pure he
  | succ fuel ih =>
    refine counts_peek.after fun t => ?_
    split
    · refine counts_skip.after fun _ => counts_peek.after fun t => ?_
      split
      · refine counts_skip.after fun _ => ih ?_
        unfold memberOf
        split
        · exact Nat.le_add_left _ _
        · simp only [Within, height, uncounted, Expr.string] at *
          omega
      · exact counts_refuse _
    · refine counts_skip.after fun _ => hinner.expression.bind fun m key hkey => ?_
      refine (counts_expect _ _).after fun _ => ?_
      refine .of_add_assoc (ih ?_)
      simp only [Within, height, uncounted] at *
      omega
    · exact .pure he

theorem counts_access : Counts (access inner) (Within (3 * d + 1)) :=
  (counts_primary hinner).bind fun _ _ he =>
    counts_left.after fun fuel => counts_accessRest hinner fuel he

theorem counts_power : Counts (power inner) (Within (3 * d + 2)) := by
  refine (counts_access hinner).bind fun n base hbase => (counts_eat _).after fun found => ?_
  split
  · refine hinner.signed.bind fun m exponent hexponent => .pure ?_
    simp only [Within, height, uncounted] at *
    omega
  · exact .pure (hbase.mono (by omega) (Nat.le_refl n))

theorem counts_signed : Counts (signed inner) (Within (3 * d + 2)) := by
  have hunary {n : Nat} {e : Expr} (he : e.Within (3 * d) n) (op : UnaryOperator) :
      (Expr.unary op e).Within (3 * d + 2) n := by
    simp only [Within, height, uncounted] at *
    omega
  have hnot : Counts (do
      skip
      return .unary .not (← inner.signed)) (Within (3 * d + 2)) :=
    counts_skip.after fun _ => hinner.signed.bind fun n e he => .pure (hunary he .not)
  refine counts_peek.after fun t => ?_
  split
  · exact hnot
  · exact hnot
  · refine counts_skip.after fun _ => hinner.signed.bind fun n e he => .pure ?_
    unfold negated
    split
    · exact Nat.le_add_left _ _
    · exact hunary he .negate
  · exact counts_power hinner

theorem counts_sum : Counts (sum inner) (Within (3 * d + 2)) :=
  counts_level (counts_level (counts_signed hinner))

theorem counts_coalescence : Counts (coalescence inner) (Within (3 * d + 2)) :=
  counts_level (counts_level (counts_level (counts_level (counts_level (counts_level
    (counts_sum hinner))))))

theorem counts_conditional : Counts (conditional inner) (Within (3 * d + 3)) := by
  refine (counts_coalescence hinner).bind fun n condition hcondition =>
    (counts_eat _).after fun found => ?_
  split
  · refine hinner.expression.bind fun m yes hyes => (counts_expect _ _).after fun _ => ?_
    refine hinner.expression.bind fun l no hno => .pure ?_
    simp only [Within, height, uncounted] at *
    omega
  · exact .pure (hcondition.mono (by omega) (Nat.le_refl n))

end

theorem bounded_inner (fuel d : Nat) : (inner fuel d).Bounded d := by
  induction fuel generalizing d with
  | zero => exact ⟨counts_fail _, counts_fail _, counts_fail _⟩
  | succ fuel ih =>
    have hbound : Counts (inner (fuel + 1) d).bound (Within (3 * d + 2)) := counts_sum (ih d)
    cases d with
    | zero => exact ⟨counts_fail _, counts_fail _, hbound⟩
    | succ d =>
      exact ⟨counts_conditional (ih d),
        (counts_signed (ih d)).imp fun n e h => h.mono (by omega) (Nat.le_refl n), hbound⟩

theorem counts_expectEnd : Counts expectEnd fun n _ => n = 0 := by
  refine counts_peek.after fun t => ?_
  split
  · exact .pure rfl
  · exact counts_fail _

theorem counts_wholeExpression : Counts wholeExpression (Within (3 * maxNesting)) :=
  counts_left.after fun fuel => (bounded_inner fuel maxNesting).expression.bind fun _ _ he =>
    counts_expectEnd.after fun _ => .pure he

theorem within_test (he : e.Within k n) (op : Operator) :
    (Expr.binary .subject op e).Within (k + 1) n := by
  have hpos := e.height_pos
  simp only [Within, height, uncounted] at *
  omega

theorem within_testOf (he : e.Within k n) : (testOf e).Within (k + 1) n := by
  unfold testOf
  split
  · exact he.mono (Nat.le_succ k) (Nat.le_refl n)
  · split <;> exact within_test he _

theorem counts_cellItem {inner : Inner} {d : Nat} (hinner : inner.Bounded d) :
    Counts (cellItem inner) (Within (3 * d + 3)) := by
  have htest (op : Operator) : Counts (do return .binary .subject op (← sum inner))
      (Within (3 * d + 3)) :=
    (counts_sum hinner).bind fun _ _ he => .pure (within_test he op)
  have hcomparison : Counts (subjectComparison inner) (Within (3 * d + 3)) := by
    refine counts_peek.after fun t => ?_
    split
    case h_7 => exact counts_refuse _
    all_goals exact counts_skip.after fun _ => htest _
  refine counts_get.after fun c => ?_
  split
  · exact counts_level (counts_level hcomparison)
  · split
    · next op double _ =>
      refine counts_skip.after fun _ => ?_
      cases double with
      | true => exact counts_skip.after fun _ => htest op
      | false => exact htest op
    · exact hinner.expression.bind fun n e he =>
        .pure ((within_testOf he).mono (by omega) (Nat.le_refl n))

theorem counts_wholeCell : Counts wholeCell (Within (3 * maxNesting + 3)) :=
  counts_left.after fun fuel =>
    (counts_level (counts_cellItem (bounded_inner fuel maxNesting))).bind fun _ _ he =>
      counts_expectEnd.after fun _ => .pure he

end Parser

namespace Expr

theorem Within.of_wholeText {p : Parser Expr} {k : Nat} (hp : Parser.Counts p (Within k))
    {tokens : List Token} {e : Expr} {c : Cursor} (h : p ⟨tokens, 0⟩ = .ok (e, c)) :
    e.Within k maxOperators := by
  obtain ⟨n, hn, hmax, he⟩ := hp ⟨tokens, 0⟩ e c (Nat.zero_le _) h
  exact he.mono (Nat.le_refl k) (by simp only [Nat.zero_add] at hn; omega)

theorem height_tower (n : Nat) : (tower n).height = n + 1 := by
  induction n with
  | zero => rfl
  | succ n ih =>
    rw [tower, height, ih, height]
    omega

/-- Member accesses, each the base of the one around it. -/
def keyed : Nat → Expr
  | 0 => .field ["a"]
  | n + 1 => .index (keyed n) (.field ["a"])

def keyedText : Nat → List Char
  | 0 => ['a']
  | n + 1 => keyedText n ++ ['[', 'a', ']']

theorem height_keyed (n : Nat) : (keyed n).height = n + 1 := by
  induction n with
  | zero => rfl
  | succ n ih =>
    rw [keyed, height, ih, height]
    omega

theorem lexemes_keyed (n : Nat) : (keyed (n + 1)).lexemes =
    (keyed n).lexemes ++ [.openBracket, .identifier "a", .closeBracket] := by
  cases n <;> simp [keyed, lexemes, enclose, level, Level.rank, List.intercalate]

theorem lexedAs_keyed (n : Nat) {cs : List Char} {lexemes : List Lexeme}
    (h : Lexer.LexedAs cs lexemes) (hends : cs.takeWhile Lexer.isNameChar = []) :
    Lexer.LexedAs (keyedText n ++ cs) ((keyed n).lexemes ++ lexemes) := by
  induction n generalizing cs lexemes with
  | zero => exact lexedAs_a h hends
  | succ n ih =>
    have hopen : Lexer.isNameChar '[' = false := by decide +kernel
    have hclose : Lexer.isNameChar ']' = false := by decide +kernel
    have hkey := lexedAs_openBracket (lexedAs_a (lexedAs_closeBracket h) (by simp [hclose]))
    rw [lexemes_keyed]
    simpa [keyedText] using ih hkey (by simp [hopen])

theorem all_isBlank_keyedText (n : Nat) : (keyedText n).all Text.isBlank = false := by
  induction n with
  | zero => rfl
  | succ n ih => rw [keyedText, List.all_append, ih, Bool.false_and]

theorem isWritable_keyed (n : Nat) : (keyed n).IsWritable := by
  induction n with
  | zero => simp [keyed, IsWritable]
  | succ n ih => exact ⟨ih, by simp [IsWritable]⟩

theorem nesting_keyed_le (n : Nat) : (keyed n).nesting ≤ 1 := by
  induction n with
  | zero => simp [keyed, nesting]
  | succ n ih => cases n <;> simp_all [keyed, nesting, encloseNesting, level, Level.rank]

theorem operatorCount_keyed (n : Nat) : (keyed n).operatorCount = 0 := by
  induction n with
  | zero => rfl
  | succ n ih => simpa [keyed, operatorCount] using ih

theorem parse_keyed (n : Nat) : parse (String.ofList (keyedText n)) = .ok (keyed n) := by
  have hlexed := lexedAs_keyed n Lexer.lexedAs_nil rfl
  rw [List.append_nil, List.append_nil] at hlexed
  have htaken : (keyed n).IsTaken :=
    (takes_lexemes (keyed n) (isWritable_keyed n)).of_rank_le (Nat.zero_le _)
  refine parse_of_takes hlexed htaken ?_ ?_ ?_
  · exact (Nat.succ_le_succ (nesting_keyed_le n)).trans (by decide)
  · rw [operatorCount_keyed]
    exact Nat.zero_le _
  · exact all_isBlank_keyedText n

/-- A parsed expression is no higher than the limits of operators and of nesting allow, apart from
steps to the base of a member access and to the end of an interval, which no limit counts. -/
theorem height_le_of_parsed {source : String} {e : Expr}
    (h : parse source = .ok e ∨ parseCell source = .ok e) :
    e.height ≤ maxOperators + 8 * maxNesting + 2 * e.uncounted := by
  have hwithin : e.Within (8 * maxNesting) maxOperators := by
    rcases h with h | h
    · obtain ⟨-, tokens, c, -, hwhole⟩ := parse_eq_ok_iff.1 h
      exact (Within.of_wholeText Parser.counts_wholeExpression hwhole).mono (by decide)
        (Nat.le_refl _)
    · rw [parseCell_eq_ok_iff] at h
      split at h
      · rw [h]
        exact Nat.le_add_left 1 _
      · obtain ⟨tokens, c, -, hwhole⟩ := h
        exact (Within.of_wholeText Parser.counts_wholeCell hwhole).mono (by decide)
          (Nat.le_refl _)
  exact hwithin

theorem keyed_height_le : parse (String.ofList (keyedText 1024)) = .ok (keyed 1024) ∧
    (keyed 1024).height ≤ maxOperators + 8 * maxNesting + 2 * (keyed 1024).uncounted :=
  ⟨parse_keyed 1024, height_le_of_parsed (.inl (parse_keyed 1024))⟩

/-- The steps that are not counted lead beyond every bound: 1024 keys behind a name, and 1024
intervals of which each is the end of the one around it. -/
theorem uncounted_height_exceeds :
    (∃ e, parse (String.ofList (keyedText 1024)) = .ok e ∧
      maxOperators + 8 * maxNesting < e.height) ∧
    ∃ e, parse (String.ofList (towerText 1024)) = .ok e ∧
      maxOperators + 8 * maxNesting < e.height := by
  refine ⟨⟨keyed 1024, parse_keyed 1024, ?_⟩, tower 1024, parse_tower 1024, ?_⟩
  · rw [height_keyed]
    decide
  · rw [height_tower]
    decide

end Expr

end RuleGraph

import RuleGraph.Proofs.Expr.Visibility
import RuleGraph.Proofs.Parsing.DeepBrackets
/-!
# Spellings of a cell

Values with commas between them may be put in brackets, and an interval may be written as two
comparisons. The tests are different ones and are evaluated in different ways, but they hold of the
same subjects.
-/
namespace RuleGraph.Expr
open RuleGraph.Parser

variable {e : Expr} {es : List Expr} {s : Scope} {v w : Value} {vs : List Value}

theorem anyMentionsSubject_eq_false (h : ∀ e ∈ es, e.mentionsSubject = false) :
    anyMentionsSubject es = false := by
  induction es with
  | nil => rfl
  | cons e es ih =>
    obtain ⟨he, hes⟩ := List.forall_mem_cons.1 h
    rw [anyMentionsSubject, he, ih hes]
    rfl

/-- Values with commas between them fit into the limits. Each comma counts as an operator. -/
def FitsListed (tss : List (List Lexeme)) (es : List Expr) : Prop :=
  List.Forall₂ (Level.conditional.SpellsWithin (maxNesting - 1)) tss es ∧
    allOperatorCount es + (es.length - 1) ≤ maxOperators

/-- The same in brackets, which nest one level deeper. Their commas do not count. -/
def FitsBracketed (tss : List (List Lexeme)) (es : List Expr) : Prop :=
  List.Forall₂ (Level.conditional.SpellsWithin (maxNesting - 2)) tss es ∧
    allOperatorCount es ≤ maxOperators

/-- An interval fits into the limits. Only its start is nested in it. -/
def FitsInterval (ta tb : List Lexeme) (start stop : Expr) : Prop :=
  (Level.conditional.SpellsWithin (maxNesting - 2) ta start ∧
    Level.sum.SpellsWithin (maxNesting - 1) tb stop) ∧
    start.operatorCount + stop.operatorCount ≤ maxOperators

/-- Two comparisons with `and` between them fit into the limits. -/
def FitsChain (ta tb : List Lexeme) (start stop : Expr) : Prop :=
  (Level.sum.SpellsWithin maxNesting ta start ∧ Level.sum.SpellsWithin maxNesting tb stop) ∧
    start.operatorCount + (1 + stop.operatorCount) ≤ maxOperators

theorem parsesCell_testOf {source : String} {ts : List Lexeme} {m n : Nat} {fits : Prop}
    (hcut : IsCutInto source ts) (h : Level.conditional.Takes ts e m n)
    (hfits : fits ↔ m + 1 ≤ maxNesting ∧ n ≤ maxOperators) :
    ParsesCell source (testOf e) fits := by
  refine parsesCell_of_reads hcut (fun c hc => reads_wholeCell_of_item ?_) hfits
  have hlength := hc.length
  rw [← List.append_nil ts] at hc
  exact reads_cellItem h hc (Level.endsAt_nil _) (by omega)

theorem parsesCell_commaSeparated {source : String} {tss : List (List Lexeme)}
    (hcut : IsCutInto source (commaSeparated tss))
    (h : List.Forall₂ Level.conditional.Spells tss (e :: es)) :
    ParsesCell source (CellItem.anyOf (testOf e) (es.map testOf)) (FitsListed tss (e :: es)) := by
  cases h with
  | @cons ts _ tss _ h hs =>
    obtain ⟨m, htakes, hwithin⟩ := h.exists_takes
    obtain ⟨m', htaken, hswithin⟩ := exists_takenAll hs
    refine parsesCell_of_reads hcut (fun c hc => reads_wholeCell_commaSeparated htakes htaken hc) ?_
    rw [FitsListed, allOperatorCount, List.length_cons, List.forall₂_cons]
    by_cases hcount : e.operatorCount + (allOperatorCount es + es.length) ≤ maxOperators
    · rw [← hwithin (by omega), ← hswithin (by omega)]
      have hmax : maxNesting = 64 := rfl
      omega
    · omega

theorem parsesCell_array {source : String} {tss : List (List Lexeme)}
    (hcut : IsCutInto source (.openBracket :: commaSeparated tss ++ [.closeBracket]))
    (h : List.Forall₂ Level.conditional.Spells tss es) (hes : es ≠ [])
    (hplain : ∀ e ∈ es, e.mentionsSubject = false) :
    ParsesCell source (.binary .subject .member (.array es)) (FitsBracketed tss es) := by
  obtain ⟨m, htaken, hwithin⟩ := exists_takenAll h
  have harray := takes_array htaken hes (.inl rfl)
  rw [List.append_nil] at harray
  have htest : testOf (.array es) = .binary .subject .member (.array es) := by
    rw [testOf, mentionsSubject, anyMentionsSubject_eq_false hplain]
    rfl
  refine htest ▸ parsesCell_testOf hcut (harray.of_rank_le (Nat.zero_le _)) ?_
  rw [FitsBracketed]
  refine and_congr_left fun hcount => ?_
  rw [← hwithin hcount]
  have hmax : maxNesting = 64 := rfl
  omega

section
variable {start stop : Expr} {startIncluded stopIncluded : Bool} {source : String}
  {ta tb tm : List Lexeme}

theorem parsesCell_interval
    (hcut : IsCutInto source ((if startIncluded then .openBracket else .openParen) ::
      ta ++ .dots :: tb ++ [if stopIncluded then .closeBracket else .closeParen]))
    (hstart : Level.conditional.Spells ta start) (hstop : Level.sum.Spells tb stop)
    (hplain : start.mentionsSubject = false ∧ stop.mentionsSubject = false) :
    ParsesCell source
      (.binary .subject .member (.interval start stop startIncluded stopIncluded))
      (FitsInterval ta tb start stop) := by
  obtain ⟨m, htakes, hwithin⟩ := hstart.exists_takes
  obtain ⟨m', htakes', hwithin'⟩ := hstop.exists_takes
  have hinterval := takes_interval htakes htakes' startIncluded stopIncluded
  have htest : testOf (.interval start stop startIncluded stopIncluded) =
      .binary .subject .member (.interval start stop startIncluded stopIncluded) := by
    rw [testOf, mentionsSubject, hplain.1, hplain.2]
    rfl
  refine htest ▸ parsesCell_testOf hcut (hinterval.of_rank_le (Nat.zero_le _)) ?_
  rw [FitsInterval]
  refine and_congr_left fun hcount => ?_
  rw [← hwithin (by omega), ← hwithin' (by omega)]
  have hmax : maxNesting = 64 := rfl
  omega

theorem parsesCell_and {op op' : Operator} (hop : op.isComparison) (hop' : op'.isComparison)
    (htm : tm ∈ Operator.and.spellings)
    (hcut : IsCutInto source (op.lexemes ++ (ta ++ (tm ++ (op'.lexemes ++ tb)))))
    (hstart : Level.sum.Spells ta start) (hstop : Level.sum.Spells tb stop) :
    ParsesCell source
      (.binary (.binary .subject op start) .and (.binary .subject op' stop))
      (FitsChain ta tb start stop) := by
  obtain ⟨m, htakes, hwithin⟩ := hstart.exists_takes
  obtain ⟨m', htakes', hwithin'⟩ := hstop.exists_takes
  refine parsesCell_of_reads hcut
    (fun c hc => reads_wholeCell_and hop hop' htm htakes htakes' hc) ?_
  rw [FitsChain]
  refine and_congr_left fun hcount => ?_
  rw [← hwithin (by omega), ← hwithin' (by omega)]
  omega

end

theorem eval_withSubject_of_not_mentions (h : e.mentionsSubject = false) (s : Scope) (v : Value) :
    e.eval (s.withSubject v) = e.eval s :=
  eval_of_alike e ⟨rfl, fun _ _ => rfl, fun hmentions => by rw [h] at hmentions; cases hmentions⟩

theorem exists_evalAll (h : ∀ e ∈ es, ∃ w, e.eval s = .ok w) : ∃ vs, evalAll es s = .ok vs := by
  induction es with
  | nil => exact ⟨[], rfl⟩
  | cons e es ih =>
    obtain ⟨⟨w, he⟩, hes⟩ := List.forall_mem_cons.1 h
    obtain ⟨vs, hvs⟩ := ih hes
    exact ⟨w :: vs, by rw [evalAll, he, ok_bind, hvs]; rfl⟩

theorem holds_of_eval {b : Bool} (h : e.eval s = .ok (.bool b)) : e.holds s = .ok b := by
  rw [holds, h]
  rfl

theorem eval_testOf (hplain : e.mentionsSubject = false ∧ e.isCollection = false)
    (he : e.eval s = .ok w) (hv : s.subject = .ok v) :
    (testOf e).eval s = .ok (.bool (v.equal w)) := by
  rw [testOf, hplain.1, hplain.2]
  simp only [Bool.false_eq_true, if_false, eval, hv, he, ok_bind, Operation.compare, pure_eq_ok]

theorem eval_or {left right : Expr} {b b' : Bool} (hleft : left.eval s = .ok (.bool b))
    (hright : right.eval s = .ok (.bool b')) :
    (binary left .or right).eval s = .ok (.bool (b || b')) := by
  simp only [eval, hleft, hright, ok_bind, expectBool]
  cases b <;> rfl

/-- Alternatives hold if the first of them does or the subject is one of the other values. -/
theorem eval_anyOf (hplain : ∀ e ∈ es, e.mentionsSubject = false ∧ e.isCollection = false)
    (hes : evalAll es s = .ok vs) (hv : s.subject = .ok v) {left : Expr} {b : Bool}
    (hleft : left.eval s = .ok (.bool b)) :
    (CellItem.anyOf left (es.map testOf)).eval s = .ok (.bool (b || vs.any v.equal)) := by
  induction es generalizing left b vs with
  | nil =>
    cases hes
    rw [List.any_nil, Bool.or_false]
    exact hleft
  | cons e es ih =>
    obtain ⟨he, hplain⟩ := List.forall_mem_cons.1 hplain
    rw [evalAll] at hes
    obtain ⟨w, hw, hes⟩ := bind_eq_ok.1 hes
    obtain ⟨ws, hws, hvs⟩ := bind_eq_ok.1 hes
    cases hvs
    rw [List.any_cons, ← Bool.or_assoc]
    exact ih hplain hws (eval_or hleft (eval_testOf he hw hv))

theorem eval_member_array (hes : evalAll es s = .ok vs) (hv : s.subject = .ok v) :
    (binary .subject .member (.array es)).eval s = .ok (.bool (vs.any v.equal)) := by
  simp only [eval, hes, hv, ok_bind, pure_eq_ok, Operation.contains, Operation.membership]
  rfl

/-- Two tests have the same answer: one boolean, or errors of the types. -/
def SameAnswer (r r' : Except EvalError Bool) : Prop :=
  (∃ b, r = .ok b ∧ r' = .ok b) ∨ ∃ fault fault', r = .error (.type fault) ∧
    r' = .error (.type fault')

section
variable {start stop : Expr} {x y : Float}

theorem holds_interval (hstart : start.eval s = .ok (.number x))
    (hstop : stop.eval s = .ok (.number y)) (hv : s.subject = .ok v)
    (startIncluded stopIncluded : Bool) :
    (binary .subject .member (.interval start stop startIncluded stopIncluded)).holds s =
      Operation.inInterval v (.number x) (.number y) startIncluded stopIncluded := by
  simp only [holds, eval, hstart, hstop, hv, ok_bind, Operation.membership]
  cases Operation.inInterval v (.number x) (.number y) startIncluded stopIncluded <;> rfl

/-- The second comparison matters only if the first one holds. -/
theorem holds_and {op op' : Operator} (hop : op.isComparison) (hop' : op'.isComparison)
    (hstart : start.eval s = .ok (.number x)) (hstop : stop.eval s = .ok (.number y))
    (hv : s.subject = .ok v) :
    (binary (.binary .subject op start) .and (.binary .subject op' stop)).holds s = (do
      if ← Operation.compare op v (.number x) then Operation.compare op' v (.number y)
      else return false) := by
  have hcompare {op : Operator} (hop : op.isComparison) {e : Expr} {w : Value}
      (he : e.eval s = .ok w) : (binary .subject op e).eval s =
        (do return .bool (← Operation.compare op v w)) := by
    cases op <;> first | (simp only [eval, hv, he, ok_bind]; done) | cases hop
  rw [holds, eval, hcompare hop hstart, hcompare hop' hstop]
  cases Operation.compare op v (.number x) with
  | error x => rfl
  | ok b =>
    cases b with
    | false => rfl
    | true => cases Operation.compare op' v (.number y) <;> rfl

theorem inInterval_sameAnswer (v : Value) (x y : Float) (startIncluded stopIncluded : Bool) :
    SameAnswer (Operation.inInterval v (.number x) (.number y) startIncluded stopIncluded) (do
      if ← Operation.compare (if startIncluded then .ge else .gt) v (.number x) then
        Operation.compare (if stopIncluded then .le else .lt) v (.number y)
      else return false) := by
  cases v with
  | null => exact .inl ⟨false, rfl, by cases startIncluded <;> rfl⟩
  | number z =>
    have hboth (b b' : Bool) :
        (if b = true then .ok b' else .ok false : Except EvalError Bool) = .ok (b && b') := by
      cases b <;> rfl
    refine .inl ⟨_, rfl, ?_⟩
    cases startIncluded <;> cases stopIncluded <;> exact hboth _ _
  | bool _ | string _ | array _ | object _ =>
    cases startIncluded <;> exact .inr ⟨_, _, rfl, rfl⟩

end

/-- Cells that are spelled in different ways hold of the same subjects, as far as they fit into the
limits of the parser. Values with commas between them do so with and without brackets, and an
interval as two comparisons with its ends. -/
theorem spellings_agree :
    (∀ (es : List Expr) (tss tss' : List (List Lexeme)) (listed bracketed : String), es ≠ [] →
      (∀ e ∈ es, e.mentionsSubject = false ∧ e.isCollection = false) →
      List.Forall₂ Level.conditional.Spells tss es →
      List.Forall₂ Level.conditional.Spells tss' es →
      IsCutInto listed (commaSeparated tss) →
      IsCutInto bracketed (.openBracket :: commaSeparated tss' ++ [.closeBracket]) →
      ∃ test test' : Expr, ParsesCell listed test (FitsListed tss es) ∧
        ParsesCell bracketed test' (FitsBracketed tss' es) ∧
        ∀ s : Scope, (∀ e ∈ es, ∃ w, e.eval s = .ok w) → ∀ v : Value, ∃ b,
          test.holds (s.withSubject v) = .ok b ∧ test'.holds (s.withSubject v) = .ok b) ∧
    ∀ (start stop : Expr) (startIncluded stopIncluded : Bool)
      (ta tb ta' tb' tm : List Lexeme) (interval chain : String),
      start.mentionsSubject = false ∧ stop.mentionsSubject = false →
      Level.conditional.Spells ta start → Level.sum.Spells tb stop →
      Level.sum.Spells ta' start → Level.sum.Spells tb' stop → tm ∈ Operator.and.spellings →
      IsCutInto interval ((if startIncluded then .openBracket else .openParen) ::
        ta ++ .dots :: tb ++ [if stopIncluded then .closeBracket else .closeParen]) →
      IsCutInto chain ((if startIncluded then Operator.ge else .gt).lexemes ++
        (ta' ++ (tm ++ ((if stopIncluded then Operator.le else .lt).lexemes ++ tb')))) →
      ∃ test test' : Expr, ParsesCell interval test (FitsInterval ta tb start stop) ∧
        ParsesCell chain test' (FitsChain ta' tb' start stop) ∧
        ∀ (s : Scope) (x y : Float), start.eval s = .ok (.number x) →
          stop.eval s = .ok (.number y) → ∀ v : Value,
            SameAnswer (test.holds (s.withSubject v)) (test'.holds (s.withSubject v)) := by
  constructor
  · intro es tss tss' listed bracketed hne hplain hlist harray hlisted hbracketed
    obtain ⟨first, others, rfl⟩ := List.exists_cons_of_ne_nil hne
    refine ⟨_, _, parsesCell_commaSeparated hlisted hlist,
      parsesCell_array hbracketed harray hne fun e he => (hplain e he).1, fun s hvalues v => ?_⟩
    have hv : (s.withSubject v).subject = .ok v := rfl
    obtain ⟨vs, hvs⟩ : ∃ vs, evalAll (first :: others) (s.withSubject v) = .ok vs :=
      exists_evalAll fun e he => by
        rw [eval_withSubject_of_not_mentions (hplain e he).1]
        exact hvalues e he
    have hmembers := eval_member_array hvs hv
    rw [evalAll] at hvs
    obtain ⟨w, hw, hrest⟩ := bind_eq_ok.1 hvs
    obtain ⟨ws, hws, heq⟩ := bind_eq_ok.1 hrest
    cases heq
    obtain ⟨hfirst, hothers⟩ := List.forall_mem_cons.1 hplain
    exact ⟨_, holds_of_eval (eval_anyOf hothers hws hv (eval_testOf hfirst hw hv)),
      holds_of_eval hmembers⟩
  · intro start stop startIncluded stopIncluded ta tb ta' tb' tm interval chain hplain hstart
      hstop hstart' hstop' htm hinterval hchain
    have hlow : (if startIncluded then Operator.ge else .gt).isComparison := by
      cases startIncluded <;> rfl
    have hhigh : (if stopIncluded then Operator.le else .lt).isComparison := by
      cases stopIncluded <;> rfl
    refine ⟨_, _, parsesCell_interval hinterval hstart hstop hplain,
      parsesCell_and hlow hhigh htm hchain hstart' hstop', fun s x y hx hy v => ?_⟩
    rw [← eval_withSubject_of_not_mentions hplain.1 s v] at hx
    rw [← eval_withSubject_of_not_mentions hplain.2 s v] at hy
    rw [holds_interval hx hy rfl, holds_and hlow hhigh hx hy rfl]
    exact inInterval_sameAnswer v x y startIncluded stopIncluded

def fourCellsCut : Bool :=
  match Lexer.tokens (Text.trim "'gold', tier"), Lexer.tokens (Text.trim "['gold', tier]"),
    Lexer.tokens (Text.trim "[low..high)"), Lexer.tokens (Text.trim ">= low and < high") with
  | .ok [⟨.string "gold", _⟩, ⟨.comma, _⟩, ⟨.identifier "tier", _⟩, ⟨.eof, _⟩],
    .ok [⟨.openBracket, _⟩, ⟨.string "gold", _⟩, ⟨.comma, _⟩, ⟨.identifier "tier", _⟩,
      ⟨.closeBracket, _⟩, ⟨.eof, _⟩],
    .ok [⟨.openBracket, _⟩, ⟨.identifier "low", _⟩, ⟨.dots, _⟩, ⟨.identifier "high", _⟩,
      ⟨.closeParen, _⟩, ⟨.eof, _⟩],
    .ok [⟨.greaterEqual, _⟩, ⟨.identifier "low", _⟩, ⟨.andWord, _⟩, ⟨.less, _⟩,
      ⟨.identifier "high", _⟩, ⟨.eof, _⟩] => true
  | _, _, _, _ => false

def pricingContext : Value :=
  .object [("high", .number 5), ("low", .number 1), ("tier", .string "basic")]

theorem pricing_spellings_agree :
    (∃ test test' : Expr,
      parseCell "'gold', tier" = .ok test ∧ parseCell "['gold', tier]" = .ok test' ∧
      ∀ v : Value, ∃ b, test.holds ((Scope.ofRoot pricingContext).withSubject v) = .ok b ∧
        test'.holds ((Scope.ofRoot pricingContext).withSubject v) = .ok b) ∧
    ∃ test test' : Expr,
      parseCell "[low..high)" = .ok test ∧ parseCell ">= low and < high" = .ok test' ∧
      ∀ v : Value, SameAnswer (test.holds ((Scope.ofRoot pricingContext).withSubject v))
        (test'.holds ((Scope.ofRoot pricingContext).withSubject v)) := by
  have hcut : fourCellsCut := by decide +kernel
  rw [fourCellsCut] at hcut
  split at hcut
  · next hlisted hbracketed hinterval hchain =>
    have hname (L : Level) (depth : Nat) (name : String) :
        L.SpellsWithin depth [.identifier name] (.field [name]) :=
      (Derives.name name).of_rank_le (by cases L <;> decide)
    have hwithin (depth : Nat) : List.Forall₂ (Level.conditional.SpellsWithin depth)
        [[.string "gold"], [.identifier "tier"]] [.string "gold", .field ["tier"]] :=
      .cons ((Derives.atom rfl).of_rank_le (by decide)) (.cons (hname _ _ _) .nil)
    have hitems : List.Forall₂ Level.conditional.Spells
        [[.string "gold"], [.identifier "tier"]] [.string "gold", .field ["tier"]] :=
      (hwithin 0).imp fun _ _ h => ⟨0, h⟩
    constructor
    · obtain ⟨test, test', htest, htest', hagree⟩ :=
        spellings_agree.1 [.string "gold", .field ["tier"]] _ _ _ _ (by simp)
          (by simp [mentionsSubject, isCollection, string]) hitems hitems ⟨_, hlisted, rfl⟩
          ⟨_, hbracketed, rfl⟩
      refine ⟨test, test', htest.1 ⟨hwithin _, by decide⟩, htest'.1 ⟨hwithin _, by decide⟩,
        hagree _ fun e he => ?_⟩
      simp only [List.mem_cons, List.not_mem_nil, or_false] at he
      rcases he with rfl | rfl
      · exact ⟨_, rfl⟩
      · exact ⟨_, rfl⟩
    · obtain ⟨test, test', htest, htest', hagree⟩ :=
        spellings_agree.2 (.field ["low"]) (.field ["high"]) true false _ _ _ _ _ _ _ ⟨rfl, rfl⟩
          ⟨0, hname _ _ _⟩ ⟨0, hname _ _ _⟩ ⟨0, hname _ _ _⟩ ⟨0, hname _ _ _⟩
          List.mem_cons_self ⟨_, hinterval, rfl⟩ ⟨_, hchain, rfl⟩
      exact ⟨test, test', htest.1 ⟨⟨hname _ _ _, hname _ _ _⟩, by decide⟩,
        htest'.1 ⟨⟨hname _ _ _, hname _ _ _⟩, by decide⟩, hagree _ 1 5 rfl rfl⟩
  · cases hcut

/-- The name `a`, and so many more of it behind commas. -/
def namesText : Nat → List Char
  | 0 => ['a']
  | n + 1 => 'a' :: ',' :: namesText n

theorem lexedAs_namesText (n : Nat) {cs : List Char} {lexemes : List Lexeme}
    (h : Lexer.LexedAs cs lexemes) (hends : cs.takeWhile Lexer.isNameChar = []) :
    Lexer.LexedAs (namesText n ++ cs)
      (commaSeparated (List.replicate (n + 1) [.identifier "a"]) ++ lexemes) := by
  induction n with
  | zero => exact lexedAs_a h hends
  | succ n ih =>
    have hcomma : (',' :: (namesText n ++ cs)).takeWhile Lexer.isNameChar = [] := by
      have hname : Lexer.isNameChar ',' = false := by decide +kernel
      simp [hname]
    have hmore := lexedAs_a (Lexer.LexedAs.comma ih).2 hcomma
    rw [List.replicate_succ, commaSeparated_cons, List.replicate_succ, afterCommas_cons,
      ← commaSeparated_cons, ← List.replicate_succ]
    simpa [namesText] using hmore

theorem exists_namesText (n : Nat) : ∃ cs, namesText (n + 1) = 'a' :: (cs ++ ['a']) := by
  induction n with
  | zero => exact ⟨[','], rfl⟩
  | succ n ih =>
    obtain ⟨cs, hcs⟩ := ih
    exact ⟨',' :: 'a' :: cs, by rw [namesText, hcs]; rfl⟩

theorem isCutInto_namesText (n : Nat) : IsCutInto (String.ofList (namesText (n + 1)))
    (commaSeparated (List.replicate (n + 2) [.identifier "a"])) := by
  have hlexed := lexedAs_namesText (n + 1) Lexer.lexedAs_nil rfl
  rw [List.append_nil, List.append_nil] at hlexed
  obtain ⟨cs, hcs⟩ := exists_namesText n
  have htrim : Text.trim (String.ofList (namesText (n + 1))) = String.ofList (namesText (n + 1)) :=
    hcs ▸ trim_eq_self (by decide) (by decide) cs
  rw [IsCutInto, htrim]
  exact Lexer.tokens_of_lexedAs hlexed

theorem isCutInto_namesText_bracketed (n : Nat) :
    IsCutInto (String.ofList ('[' :: (namesText n ++ [']'])))
      (.openBracket :: commaSeparated (List.replicate (n + 1) [.identifier "a"]) ++
        [.closeBracket]) := by
  have hclose : [']'].takeWhile Lexer.isNameChar = [] := by decide +kernel
  have hlexed := lexedAs_openBracket
    (lexedAs_namesText n (lexedAs_closeBracket Lexer.lexedAs_nil) hclose)
  rw [IsCutInto, trim_eq_self (by decide) (by decide)]
  exact Lexer.tokens_of_lexedAs hlexed

theorem spellsWithin_names (n depth : Nat) : List.Forall₂ (Level.conditional.SpellsWithin depth)
    (List.replicate n [.identifier "a"]) (List.replicate n (.field ["a"])) := by
  induction n with
  | zero => exact .nil
  | succ n ih => exact .cons ((Derives.name "a").of_rank_le (by decide)) ih

theorem spells_names (n : Nat) : List.Forall₂ Level.conditional.Spells
    (List.replicate n [.identifier "a"]) (List.replicate n (.field ["a"])) :=
  (spellsWithin_names n 0).imp fun _ _ h => ⟨0, h⟩

theorem allOperatorCount_names (n : Nat) :
    allOperatorCount (List.replicate n (.field ["a"])) = 0 := by
  induction n with
  | zero => rfl
  | succ n ih => simpa [List.replicate_succ, allOperatorCount, operatorCount] using ih

/-- A name more often than operators are allowed is too much for a cell without brackets. -/
theorem parseCell_names_listed {n : Nat} (hn : maxOperators ≤ n) :
    ∃ limit : ParseError, limit.IsLimit ∧
      parseCell (String.ofList (namesText (n + 1))) = .error limit := by
  refine (parsesCell_commaSeparated (isCutInto_namesText n) (spells_names (n + 2))).2
    fun hfits => ?_
  have hcount := hfits.2
  rw [List.length_cons, List.length_replicate] at hcount
  omega

theorem parseCell_names_bracketed (n : Nat) :
    parseCell (String.ofList ('[' :: (namesText n ++ [']']))) =
      .ok (.binary .subject .member (.array (List.replicate (n + 1) (.field ["a"])))) := by
  refine (parsesCell_array (isCutInto_namesText_bracketed n) (spells_names (n + 1)) (by simp)
    fun e he => ?_).1 ⟨spellsWithin_names (n + 1) _, ?_⟩
  · rw [List.eq_of_mem_replicate he]
    rfl
  · rw [allOperatorCount_names]
    exact Nat.zero_le _

theorem holds_member_names {s : Scope} (h : (field ["a"]).eval s = .ok v) (hv : s.subject = .ok v)
    (hequal : v.equal v) (n : Nat) :
    (binary .subject .member (.array (List.replicate (n + 1) (.field ["a"])))).holds s =
      .ok true := by
  have hall : ∀ e ∈ List.replicate n (field ["a"]), ∃ w, e.eval s = .ok w := by
    intro e he
    exact ⟨v, List.eq_of_mem_replicate he ▸ h⟩
  obtain ⟨vs, hvs⟩ := exists_evalAll hall
  have hmember : evalAll (List.replicate (n + 1) (field ["a"])) s = .ok (v :: vs) := by
    rw [List.replicate_succ, evalAll, h, hvs]
    rfl
  refine holds_of_eval ((eval_member_array hmember hv).trans ?_)
  rw [List.any_cons, hequal, Bool.true_or]

/-- A name 514 times is too much for a cell without brackets, as each comma counts, but not for one
with them. -/
theorem names_only_bracketed :
    let es := List.replicate 514 (field ["a"])
    let tss := List.replicate 514 [Lexeme.identifier "a"]
    let s := Scope.ofRoot (.object [("a", .number 1)])
    let listed := String.ofList (namesText 513)
    let bracketed := String.ofList ('[' :: (namesText 513 ++ [']']))
    (∀ e ∈ es, (e.mentionsSubject = false ∧ e.isCollection = false) ∧ ∃ w, e.eval s = .ok w) ∧
    List.Forall₂ Level.conditional.Spells tss es ∧
    IsCutInto listed (commaSeparated tss) ∧
    IsCutInto bracketed (.openBracket :: commaSeparated tss ++ [.closeBracket]) ∧
    (∃ limit : ParseError, limit.IsLimit ∧ parseCell listed = .error limit) ∧
    ∃ test, parseCell bracketed = .ok test ∧
      test.holds (s.withSubject (.number 1)) = .ok true := by
  intro es tss s listed bracketed
  have hplain : ∀ e ∈ es, (e.mentionsSubject = false ∧ e.isCollection = false) ∧
      ∃ w, e.eval s = .ok w := by
    intro e he
    rw [List.eq_of_mem_replicate he]
    exact ⟨⟨rfl, rfl⟩, _, rfl⟩
  have hequal : (Value.number 1).equal (.number 1) := by decide +kernel
  exact ⟨hplain, spells_names 514, isCutInto_namesText 512, isCutInto_namesText_bracketed 513,
    parseCell_names_listed (Nat.le_refl _),
    _, parseCell_names_bracketed 513, holds_member_names rfl rfl hequal 513⟩

end RuleGraph.Expr

import RuleGraph.Proofs.Parsing.Grammar
import RuleGraph.Proofs.Parsing.Levels
import RuleGraph.Proofs.Parsing.Tokens
/-!
# What is read stands in the grammar

Whatever a parser makes of tokens, those that it has read stand for it in the grammar, on its level
and within the nesting that was left to it.
-/
namespace RuleGraph
open RuleGraph.Parser

theorem Cursor.At.of_head {c : Cursor} {ts : List Lexeme} (hc : c.At ts) (h : c.head ≠ .eof) :
    ∃ rest, ts = c.head :: rest ∧ c.next.At rest := by
  cases ts with
  | nil => exact absurd hc.head_eq h
  | cons t rest => exact ⟨rest, by rw [hc.head], hc.next⟩

namespace Parser
variable {α β : Type} {P : List Lexeme → α → Prop} {Q : List Lexeme → β → Prop} {a : α}
  {r : Except ParseError (α × Cursor)} {c : Cursor} {t : Lexeme} {ts seg rest : List Lexeme}

/-- If something comes out, then of the given lexemes some were read, of which `P` says what they
stand for, and the cursor is before the others. -/
def Yields (r : Except ParseError (α × Cursor)) (ts : List Lexeme) (P : List Lexeme → α → Prop) :
    Prop :=
  ∀ a c', r = .ok (a, c') → ∃ seg rest, ts = seg ++ rest ∧ c'.At rest ∧ P seg a

theorem yields_error (e : ParseError) : Yields (.error e : Except ParseError (α × Cursor)) ts P :=
  nofun

theorem yields_pure (hc : c.At ts) (h : P [] a) : Yields ((pure a : Parser α) c) ts P := by
  rintro _ _ ⟨⟩
  exact ⟨[], ts, rfl, hc, h⟩

theorem Yields.imp {P' : List Lexeme → α → Prop} (h : Yields r ts P)
    (hP : ∀ seg a, P seg a → P' seg a) : Yields r ts P' := by
  intro a c' hr
  obtain ⟨seg, rest, hts, hc', ha⟩ := h a c' hr
  exact ⟨seg, rest, hts, hc', hP seg a ha⟩

theorem Yields.behind (h : Yields r rest fun read a => P (seg ++ read) a) :
    Yields r (seg ++ rest) P := by
  intro a c' hr
  obtain ⟨read, left, rfl, hc', ha⟩ := h a c' hr
  exact ⟨seg ++ read, left, (List.append_assoc ..).symm, hc', ha⟩

theorem Yields.bind {p : Parser α} {f : α → Parser β} (h : Yields (p c) ts P)
    (hf : ∀ seg rest, ts = seg ++ rest → ∀ a c', c'.At rest → P seg a →
      Yields (f a c') rest fun read b => Q (seg ++ read) b) : Yields ((p >>= f) c) ts Q := by
  intro b c'' hr
  change (p c >>= fun s => f s.1 s.2) = .ok (b, c'') at hr
  cases hp : p c with
  | error e =>
    rw [hp] at hr
    cases hr
  | ok s =>
    rw [hp] at hr
    obtain ⟨a, c'⟩ := s
    obtain ⟨seg, rest, rfl, hc', ha⟩ := h a c' hp
    exact (hf seg rest rfl a c' hc' ha).behind b c'' hr

theorem Yields.next (hc : c.At ts) (hne : c.head ≠ .eof)
    (h : ∀ rest, ts = c.head :: rest → c.next.At rest →
      Yields r rest fun read a => P (c.head :: read) a) : Yields r ts P := by
  obtain ⟨rest, hts, hnext⟩ := hc.of_head hne
  have hread : Yields r rest fun read a => P ([c.head] ++ read) a := h rest hts hnext
  rw [hts]
  exact hread.behind

theorem Yields.mark (hc : c.At ts) (hhead : c.head = t) (ht : t.isMark)
    (h : ∀ rest, ts = t :: rest → c.next.At rest → Yields r rest fun read a => P (t :: read) a) :
    Yields r ts P := by
  subst hhead
  exact .next hc (fun heof => by rw [heof] at ht; cases ht) h

theorem Yields.eat (hc : c.At ts) (t : Lexeme) (ht : t.isMark) {p q : Parser β}
    (hthen : ∀ rest, ts = t :: rest → c.next.At rest →
      Yields (p c.next) rest fun read b => Q (t :: read) b)
    (helse : Yields (q c) ts Q) :
    Yields ((eat t >>= fun b => if b = true then p else q) c) ts Q := by
  cases h : c.head == t with
  | true =>
    rw [eat_then h]
    exact .mark hc ((Lexeme.beq_mark ht _).1 h) ht hthen
  | false =>
    rw [eat_else h]
    exact helse

theorem Yields.expect (hc : c.At ts) (t : Lexeme) (ht : t.isMark) (what : Expected)
    {f : Unit → Parser β} (h : ∀ rest, ts = t :: rest → c.next.At rest →
      Yields (f () c.next) rest fun read b => Q (t :: read) b) :
    Yields ((Parser.expect t what >>= f) c) ts Q := by
  cases hhead : c.head == t with
  | true =>
    rw [expect_bind hhead]
    exact .mark hc ((Lexeme.beq_mark ht _).1 hhead) ht h
  | false =>
    rw [expect_bind_of_ne hhead]
    exact yields_error _

/-- What the inner parsers read stands in the grammar. -/
structure Inner.Sound (inner : Inner) (depth : Nat) : Prop where
  expression {c : Cursor} {ts : List Lexeme} (hc : c.At ts) : Yields (inner.expression c) ts
    fun seg e => ∃ d, depth = d + 1 ∧ Derives d seg (.expression .conditional e)
  signed {c : Cursor} {ts : List Lexeme} (hc : c.At ts) : Yields (inner.signed c) ts
    fun seg e => ∃ d, depth = d + 1 ∧ Derives d seg (.expression .sign e)
  bound {c : Cursor} {ts : List Lexeme} (hc : c.At ts) : Yields (inner.bound c) ts
    fun seg e => Derives depth seg (.expression .sum e)

/-- The lexemes of what stands between brackets before the next comma, with the comma before it. -/
inductive Before {α : Type} (phrase : List α → Phrase) (depth : Nat) : List Lexeme → List α → Prop
  | nothing : Before phrase depth [] []
  | comma {d : Nat} {seg : List Lexeme} {as : List α} (hd : depth = d + 1)
    (h : Derives d seg (phrase as)) : Before phrase depth (seg ++ [.comma]) as

variable {inner : Inner} {depth d fuel : Nat}

theorem Before.item {args : List Expr} (h : Before .items (d + 1) seg args) {e : Expr}
    {te : List Lexeme} (he : Derives d te (.expression .conditional e)) :
    Derives d (seg ++ te) (.items (args ++ [e])) := by
  cases h with
  | nothing => exact he.item
  | comma hd h =>
    cases hd
    simpa using h.moreItems he

theorem Before.entry {entries : List (String × Expr)} (h : Before .entries (d + 1) seg entries)
    {key : String} (hkey : t.keyOf? = some key) {e : Expr} {te : List Lexeme}
    (he : Derives d te (.expression .conditional e)) :
    Derives d (seg ++ t :: .colon :: te) (.entries (entries ++ [(key, e)])) := by
  cases h with
  | nothing => exact .entry hkey he
  | comma hd h =>
    cases hd
    simpa using h.moreEntries hkey he

theorem Before.object {entries : List (String × Expr)} (h : Before .entries depth seg entries) :
    Derives depth (.openBrace :: (seg ++ [.closeBrace])) (.expression .atom (.object entries)) := by
  cases h with
  | nothing => exact .emptyObject
  | comma hd h =>
    subst hd
    exact h.objectComma

theorem exists_of_head {spellings : List (List Lexeme)} (hc : c.At ts) (ht : c.head.isMark)
    (hhead : [c.head] ∈ spellings) :
    ∃ read ∈ spellings, ∃ rest, ts = read ++ rest ∧ c.next.At rest := by
  obtain ⟨rest, hts, hrest⟩ := hc.of_head fun h => by rw [h] at ht; cases ht
  exact ⟨[c.head], hhead, rest, hts, hrest⟩

theorem choice_eq_some {L : Level} {op : Operator} {double : Bool} (hc : c.At ts)
    (h : L.choice c = some (op, double)) :
    op ≠ .pow ∧ op.level = L ∧ ∃ tm ∈ op.spellings, ∃ rest, ts = tm ++ rest ∧
      (if double then c.next.next else c.next).At rest := by
  cases L with
  | membership =>
    simp only [Level.choice, membershipChoice] at h
    split at h
    · next hhead =>
      cases h
      exact ⟨by decide, rfl, exists_of_head hc (by rw [hhead]; rfl) (by rw [hhead]; exact .head _)⟩
    · next hhead hsecond =>
      cases h
      obtain ⟨rest, rfl, hrest⟩ := hc.of_head (by simp [hhead])
      have hnext : c.next.head = .inWord := by
        rw [hrest.head_eq, ← hsecond, hc.second_eq]
        rfl
      obtain ⟨left, rfl, hleft⟩ := hrest.of_head (by simp [hnext])
      exact ⟨by decide, rfl, [.notWord, .inWord], .head _, left, by rw [hhead, hnext]; rfl, hleft⟩
    · cases h
  | coalescence | disjunction | conjunction | equality | order | sum | product =>
    simp only [Level.choice, coalesceChoice, orChoice, andChoice, equalityChoice, orderChoice,
      sumChoice, productChoice] at h
    split at h <;> cases h <;>
      exact ⟨by decide, rfl, exists_of_head hc (by rw [‹c.head = _›]; rfl)
        (by rw [‹c.head = _›]; simp [Operator.spellings, Operator.lexemes])⟩
  | _ => cases h

theorem yields_countOperator (hc : c.At ts) {f : Unit → Parser β}
    (h : ∀ c', c'.At ts → Yields (f () c') ts Q) : Yields ((countOperator >>= f) c) ts Q := by
  have hcount : Yields (countOperator c) ts fun read (_ : Unit) => read = [] := by
    unfold countOperator
    split
    · exact yields_error _
    · rename_i hroom
      rintro _ _ ⟨⟩
      exact ⟨[], ts, rfl, ⟨hc.lexemes, by simp only; omega⟩, rfl⟩
  refine hcount.bind fun seg rest hts _ c' hc' hseg => ?_
  subst hseg hts
  exact h c' hc'

/-- A chain puts together what is on the left and operands, as its operators say. -/
theorem yields_chain {choice : Choice} {operand : Parser Expr}
    {Left Operand : List Lexeme → Expr → Prop}
    (hchoice : ∀ {c : Cursor} {ts : List Lexeme} {op : Operator} {double : Bool}, c.At ts →
      choice c = some (op, double) → ∃ tm rest, ts = tm ++ rest ∧
        (if double then c.next.next else c.next).At rest ∧ ∀ {tl tr left right}, Left tl left →
          Operand tr right → Left (tl ++ (tm ++ tr)) (.binary left op right))
    (hoperand : ∀ {c : Cursor} {ts : List Lexeme}, c.At ts → Yields (operand c) ts Operand)
    (hc : c.At ts) {e : Expr} (he : Left seg e) :
    Yields (chain choice operand fuel e c) ts fun read e' => Left (seg ++ read) e' := by
  induction fuel generalizing c ts seg e with
  | zero => exact yields_pure hc (by simpa using he)
  | succ fuel ih =>
    rw [chain, get_bind]
    cases hnext : choice c with
    | none => exact yields_pure hc (by simpa using he)
    | some found =>
      obtain ⟨op, double⟩ := found
      obtain ⟨tm, rest, rfl, hrest, hbinary⟩ := hchoice hc hnext
      have hskip : (do
          skip
          if double then skip
          countOperator
          let right ← operand
          chain choice operand fuel (.binary e op right) : Parser Expr) c = (do
          countOperator
          let right ← operand
          chain choice operand fuel (.binary e op right) : Parser Expr)
            (if double then c.next.next else c.next) := by
        cases double <;> rfl
      refine Yields.behind ?_
      dsimp only
      rw [hskip]
      refine yields_countOperator hrest fun c' hc' => ?_
      refine (hoperand hc').bind fun tr left _ right c'' hc'' hright => ?_
      exact (ih hc'' (hbinary he hright)).imp fun read e' h => by simpa using h

theorem yields_level {choice : Choice} {operand : Parser Expr}
    {Left Operand : List Lexeme → Expr → Prop}
    (hchoice : ∀ {c : Cursor} {ts : List Lexeme} {op : Operator} {double : Bool}, c.At ts →
      choice c = some (op, double) → ∃ tm rest, ts = tm ++ rest ∧
        (if double then c.next.next else c.next).At rest ∧ ∀ {tl tr left right}, Left tl left →
          Operand tr right → Left (tl ++ (tm ++ tr)) (.binary left op right))
    (hfirst : ∀ {ts e}, Operand ts e → Left ts e)
    (hoperand : ∀ {c : Cursor} {ts : List Lexeme}, c.At ts → Yields (operand c) ts Operand)
    (hc : c.At ts) : Yields (Parser.level choice operand c) ts Left :=
  (hoperand hc).bind fun _ _ _ _ _ hc' he => yields_chain hchoice hoperand hc' (hfirst he)

section
variable (hinner : inner.Sound depth)
include hinner

theorem yields_intervalRest (hc : c.At ts) {start : Expr} (startIncluded : Bool)
    (hd : depth = d + 1) (hstart : Derives d seg (.expression .conditional start)) :
    Yields (intervalRest inner start startIncluded c) ts fun read e =>
      Derives depth ((if startIncluded then .openBracket else .openParen) ::
        (seg ++ .dots :: read)) (.expression .atom e) := by
  subst hd
  refine (hinner.bound hc).bind fun tt rest _ stop c' hc' hstop => ?_
  rw [peek_bind]
  cases hhead : c'.head with
  | closeBracket =>
    refine .mark hc' hhead rfl fun left _ hleft => yields_pure hleft ?_
    simpa using Derives.interval startIncluded true hstart hstop
  | closeParen =>
    refine .mark hc' hhead rfl fun left _ hleft => yields_pure hleft ?_
    simpa using Derives.interval startIncluded false hstart hstop
  | _ => exact yields_error _

theorem yields_itemsRest (hc : c.At ts) {items : List Expr} (hd : depth = d + 1)
    (hitems : Derives d seg (.items items)) :
    Yields (itemsRest inner fuel items c) ts fun read es =>
      ∃ more, (read = more ∨ read = more ++ [.comma]) ∧ Derives d (seg ++ more) (.items es) := by
  induction fuel generalizing c ts seg items with
  | zero => exact yields_pure hc ⟨[], .inl rfl, by simpa using hitems⟩
  | succ fuel ih =>
    refine .eat hc .comma rfl (fun rest _ hrest => ?_)
      (yields_pure hc ⟨[], .inl rfl, by simpa using hitems⟩)
    rw [peek_bind]
    split
    · exact yields_pure hrest ⟨[], .inr rfl, by simpa using hitems⟩
    · refine (hinner.expression hrest).bind fun te left _ e c' hc' ⟨d', hd', he⟩ => ?_
      obtain rfl : d' = d := by omega
      refine (ih hc' (hitems.moreItems he)).imp fun read es ⟨more, hread, hmore⟩ =>
        ⟨.comma :: (te ++ more), ?_, by simpa using hmore⟩
      rcases hread with rfl | rfl
      · exact .inl rfl
      · exact .inr (by simp)

theorem yields_bracketRest (hc : c.At ts) :
    Yields (bracketRest inner c) ts fun read e =>
      Derives depth (.openBracket :: read) (.expression .atom e) := by
  refine .eat hc .closeBracket rfl (fun rest _ hrest => yields_pure hrest Derives.emptyArray) ?_
  refine (hinner.expression hc).bind fun te rest _ first c' hc' ⟨d, hd, hfirst⟩ => ?_
  refine .eat hc' .dots rfl (fun rest _ hrest => ?_) ?_
  · exact yields_intervalRest hinner hrest true hd hfirst
  · rw [left_bind]
    refine (yields_itemsRest hinner hc' hd hfirst.item).bind fun read left _ es c'' hc'' hes => ?_
    obtain ⟨more, hread, hes⟩ := hes
    refine .expect hc'' .closeBracket rfl _ fun left _ hleft => yields_pure hleft ?_
    subst hd
    rcases hread with rfl | rfl
    · simpa using hes.array
    · simpa using hes.arrayComma

theorem yields_parenRest (hc : c.At ts) :
    Yields (parenRest inner c) ts fun read e =>
      Derives depth (.openParen :: read) (.expression .atom e) := by
  refine (hinner.expression hc).bind fun te rest _ first c' hc' ⟨d, hd, hfirst⟩ => ?_
  refine .eat hc' .dots rfl (fun rest _ hrest => ?_) ?_
  · exact yields_intervalRest hinner hrest false hd hfirst
  · refine .expect hc' .closeParen rfl _ fun left _ hleft => yields_pure hleft ?_
    subst hd
    exact hfirst.parentheses

theorem yields_entriesRest (hc : c.At ts) (hfuel : ts.length < fuel)
    {entries : List (String × Expr)} (hentries : Before .entries depth seg entries) :
    Yields (entriesRest inner fuel entries c) ts fun read e =>
      Derives depth (.openBrace :: (seg ++ read)) (.expression .atom e) := by
  induction fuel generalizing c ts seg entries with
  | zero => omega
  | succ fuel ih =>
    -- One more entry, after which a comma goes on or a brace ends the object.
    have hentry (key : String) (hkey : c.head.keyOf? = some key) : Yields ((do
        skip
        Parser.expect .colon .keyColon
        let value ← inner.expression
        let entries := entries ++ [(key, value)]
        if ← Parser.eat .comma then entriesRest inner fuel entries
        else
          Parser.expect .closeBrace .closeBrace
          return .object entries : Parser Expr) c) ts fun read e =>
        Derives depth (.openBrace :: (seg ++ read)) (.expression .atom e) := by
      have hne : c.head ≠ .eof := fun h => by
        rw [h] at hkey
        cases hkey
      rw [skip_bind]
      refine .next hc hne fun rest hts hrest => ?_
      refine .expect hrest .colon rfl _ fun left hleft hc' => ?_
      refine (hinner.expression hc').bind fun te after hafter value c' hc' ⟨d, hd, hvalue⟩ => ?_
      subst hd
      have hmore := hentries.entry hkey hvalue
      refine .eat hc' .comma rfl (fun later hlater hc'' => ?_) ?_
      · subst hts hleft hafter hlater
        simp only [List.length_cons, List.length_append] at hfuel
        exact (ih hc'' (by omega) (.comma rfl hmore)).imp fun read e he => by simpa using he
      · refine .expect hc' .closeBrace rfl _ fun later _ hlater => yields_pure hlater ?_
        simpa using hmore.object
    rw [entriesRest, peek_bind]
    cases hhead : c.head with
    | closeBrace =>
      refine .mark hc hhead rfl fun left _ hleft => yields_pure hleft ?_
      exact hentries.object
    | identifier key => exact hentry key (by rw [hhead]; rfl)
    | string key => exact hentry key (by rw [hhead]; rfl)
    | _ => exact yields_error _

theorem yields_argumentsRest (hc : c.At ts) (hfuel : ts.length < fuel) {args : List Expr}
    (hargs : Before .items depth seg args) :
    Yields (argumentsRest inner fuel args c) ts fun read args' =>
      ∃ d more, depth = d + 1 ∧ seg ++ read = more ++ [.closeParen] ∧
        Derives d more (.items args') := by
  induction fuel generalizing c ts seg args with
  | zero => omega
  | succ fuel ih =>
    refine (hinner.expression hc).bind fun te rest hts arg c' hc' ⟨d, hd, harg⟩ => ?_
    subst hd
    have hmore := hargs.item harg
    refine .eat hc' .closeParen rfl (fun left _ hleft => yields_pure hleft ?_) ?_
    · exact ⟨d, seg ++ te, rfl, by simp, hmore⟩
    · refine .expect hc' .comma rfl _ fun left hrest hleft => ?_
      subst hts hrest
      simp only [List.length_cons, List.length_append] at hfuel
      refine (ih hleft (by omega) (.comma rfl hmore)).imp fun read args' h => ?_
      simpa using h

theorem yields_callRest (hc : c.At ts) (name : String) :
    Yields (callRest inner name c) ts fun read e =>
      Derives depth (.identifier name :: read) (.expression .atom e) := by
  unfold callRest
  cases hname : Builtin.ofName? name with
  | none => exact yields_error _
  | some f =>
    refine .expect hc .openParen rfl _ fun rest _ hrest => ?_
    refine .eat hrest .closeParen rfl (fun left _ hleft => ?_) ?_
    · change Yields ((if f.accepts 0 then pure (.call f []) else throw (.invalidArity f 0) :
        Parser Expr) c.next.next) _ _
      split
      · exact yields_pure hleft (.emptyCall hname ‹_›)
      · exact yields_error _
    · change Yields ((left >>= fun k => argumentsRest inner k [] >>= fun args =>
        if f.accepts args.length then pure (.call f args)
        else throw (.invalidArity f args.length) : Parser Expr) c.next) _ _
      rw [left_bind]
      refine (yields_argumentsRest hinner hrest (by rw [hrest.length]; omega) .nothing).bind
        fun read left _ args c' hc' ⟨d, more, hd, hread, hargs⟩ => ?_
      split
      · refine yields_pure hc' ?_
        subst hd
        rw [List.nil_append] at hread
        subst hread
        simpa using hargs.call hname ‹_›
      · exact yields_error _

theorem yields_primary (hc : c.At ts) :
    Yields (primary inner c) ts fun read e => Derives depth read (.expression .atom e) := by
  rw [primary, peek_bind]
  cases hatom : atom? c.head with
  | some e =>
    have hne : c.head ≠ .eof := fun h => by
      rw [h] at hatom
      cases hatom
    exact .next hc hne fun rest _ hrest => yields_pure hrest (.atom hatom)
  | none =>
    cases hhead : c.head with
    | identifier name =>
      have hne : c.head ≠ .eof := fun h => by
        rw [h] at hhead
        cases hhead
      refine .next hc hne fun rest _ hrest => ?_
      change Yields ((peek >>= fun t => if (t == .openParen) = true then callRest inner name
        else pure (.field [name]) : Parser Expr) c.next) _ _
      rw [peek_bind, hhead]
      split
      · exact yields_callRest hinner hrest name
      · exact yields_pure hrest (.name name)
    | openParen =>
      exact .mark hc hhead rfl fun rest _ hrest => yields_parenRest hinner hrest
    | openBracket =>
      exact .mark hc hhead rfl fun rest _ hrest => yields_bracketRest hinner hrest
    | openBrace =>
      refine .mark hc hhead rfl fun rest _ hrest => ?_
      change Yields ((left >>= fun k => entriesRest inner k [] : Parser Expr) c.next) _ _
      rw [left_bind]
      exact yields_entriesRest hinner hrest (by rw [hrest.length]; omega) .nothing
    | _ => exact yields_error _

theorem yields_accessRest (hc : c.At ts) {e : Expr}
    (he : Derives depth seg (.expression .access e)) :
    Yields (accessRest inner fuel e c) ts fun read e' =>
      Derives depth (seg ++ read) (.expression .access e') := by
  induction fuel generalizing c ts seg e with
  | zero => exact yields_pure hc (by simpa using he)
  | succ fuel ih =>
    rw [accessRest, peek_bind]
    cases hhead : c.head with
    | dot =>
      refine .mark hc hhead rfl fun rest _ hrest => ?_
      dsimp only
      rw [skip_bind, peek_bind]
      cases hname : c.next.head with
      | identifier name =>
        have hne : c.next.head ≠ .eof := fun h => by
          rw [h] at hname
          cases hname
        refine .next hrest hne fun left _ hleft => ?_
        rw [hname]
        exact (ih hleft (he.member name)).imp fun read e' h => by simpa using h
      | _ => exact yields_error _
    | openBracket =>
      refine .mark hc hhead rfl fun rest _ hrest => ?_
      dsimp only
      rw [skip_bind]
      refine (hinner.expression hrest).bind fun tk left _ key c' hc' hread => ?_
      obtain ⟨d, hd, hkey⟩ := hread
      refine .expect hc' .closeBracket rfl _ fun later _ hlater => ?_
      subst hd
      exact (ih hlater (he.index hkey)).imp fun read e' h => by simpa using h
    | _ => exact yields_pure hc (by simpa using he)

theorem yields_prefixed (hc : c.At ts) (hhead : c.head = t) (ht : t.isMark) {f : Expr → Expr}
    (hf : ∀ {d ts e}, Derives d ts (.expression .sign e) →
      Derives (d + 1) (t :: ts) (.expression .sign (f e))) :
    Yields ((skip >>= fun _ => inner.signed >>= fun e => pure (f e) : Parser Expr) c) ts
      fun read e => Derives depth read (.expression .sign e) := by
  rw [skip_bind]
  refine .mark hc hhead ht fun rest _ hrest => ?_
  refine (hinner.signed hrest).bind fun read left _ e c' hc' ⟨d, hd, he⟩ => yields_pure hc' ?_
  subst hd
  simpa using hf he

theorem yields_anyLevel (L : Level) (hc : c.At ts) :
    Yields (L.parser inner c) ts fun read e => Derives depth read (.expression L e) := by
  induction L using Level.downward generalizing c ts with
  | hatom => exact yields_primary hinner hc
  | hstep L ih =>
    by_cases hchain : L.isChain
    · rw [Level.parser_of_isChain hchain]
      refine yields_level (fun hc h => ?_) (fun h => h.tighter L) ih hc
      obtain ⟨hop, rfl, tm, htm, rest, hts, hrest⟩ := choice_eq_some hc h
      exact ⟨tm, rest, hts, hrest, fun hleft hright => .binary hop htm hleft hright⟩
    · cases L with
      | conditional =>
        refine (ih hc).bind fun tc rest _ condition c' hc' hcondition => ?_
        refine .eat hc' .question rfl (fun left _ hleft => ?_)
          (yields_pure hc' (by simpa using hcondition.tighter .conditional))
        refine (hinner.expression hleft).bind fun ty after _ yes c'' hc'' hread => ?_
        obtain ⟨d, hd, hyes⟩ := hread
        refine .expect hc'' .colon rfl _ fun later _ hlater => ?_
        refine (hinner.expression hlater).bind fun tn last _ no c₃ hc₃ hread => ?_
        obtain ⟨d', hd', hno⟩ := hread
        obtain rfl : d' = d := by omega
        subst hd
        exact yields_pure hc₃ (by simpa using hcondition.ternary hyes hno)
      | sign =>
        change Yields (Parser.signed inner c) ts _
        rw [Parser.signed, peek_bind]
        cases hhead : c.head with
        | notWord => exact yields_prefixed hinner hc hhead rfl fun h => h.not (.inl rfl)
        | bang => exact yields_prefixed hinner hc hhead rfl fun h => h.not (.inr rfl)
        | minus => exact yields_prefixed hinner hc hhead rfl fun h => h.negate
        | _ => exact (ih hc).imp fun _ _ h => h.tighter .sign
      | power =>
        refine (ih hc).bind fun tb rest _ base c' hc' hbase => ?_
        refine .eat hc' .caret rfl (fun left _ hleft => ?_)
          (yields_pure hc' (by simpa using hbase.tighter .power))
        refine (hinner.signed hleft).bind fun te after _ e c'' hc'' hread => ?_
        obtain ⟨d, hd, he⟩ := hread
        subst hd
        exact yields_pure hc'' (by simpa using hbase.power he)
      | access =>
        refine (ih hc).bind fun tb rest _ base c' hc' hbase => ?_
        rw [left_bind]
        exact yields_accessRest hinner hc' (hbase.tighter .access)
      | atom => exact (ih hc).imp fun _ _ h => h.tighter .atom
      | _ => exact absurd rfl hchain

end

/-- What is read behind a token stands in the grammar with the nesting that is left there. -/
theorem sound_inner (fuel depth : Nat) : (Parser.inner fuel depth).Sound depth := by
  induction fuel generalizing depth with
  | zero => exact ⟨fun _ => yields_error _, fun _ => yields_error _, fun _ => yields_error _⟩
  | succ fuel ih =>
    constructor
    · intro c ts hc
      cases depth with
      | zero => exact yields_error _
      | succ d => exact (yields_anyLevel (ih d) .conditional hc).imp fun _ _ h => ⟨d, rfl, h⟩
    · intro c ts hc
      cases depth with
      | zero => exact yields_error _
      | succ d => exact (yields_anyLevel (ih d) .sign hc).imp fun _ _ h => ⟨d, rfl, h⟩
    · intro c ts hc
      exact yields_anyLevel (ih depth) .sum hc

theorem yields_expectEnd (hc : c.At ts) (heof : .eof ∉ ts) :
    Yields (expectEnd c) ts fun _ _ => ts = [] := by
  rw [expectEnd, peek_bind]
  cases hhead : c.head with
  | eof =>
    cases ts with
    | nil => exact yields_pure hc rfl
    | cons t rest =>
      rw [hc.head] at hhead
      exact absurd (hhead ▸ List.mem_cons_self) heof
  | _ => exact yields_error _

theorem Yields.toEnd {p : Parser α} (h : Yields (p c) ts P) (heof : .eof ∉ ts) :
    Yields ((do
      let a ← p
      expectEnd
      return a : Parser α) c) ts fun _ a => P ts a := by
  refine h.bind fun seg rest hts a c' hc' ha => ?_
  have hrest : .eof ∉ rest := fun h => heof (by simp [hts, h])
  refine (yields_expectEnd hc' hrest).bind fun read left hleft _ c'' hc'' hnil => ?_
  refine yields_pure hc'' ?_
  rw [hts, hnil, List.append_nil]
  exact ha

theorem yields_wholeExpression (hc : c.At ts) (heof : .eof ∉ ts) :
    Yields (wholeExpression c) ts fun _ e =>
      ∃ d, maxNesting = d + 1 ∧ Derives d ts (.expression .conditional e) := by
  rw [wholeExpression, left_bind]
  exact ((sound_inner _ maxNesting).expression hc).toEnd heof

section
variable (hinner : inner.Sound maxNesting)
include hinner

theorem yields_subjectComparison (hc : c.At ts) :
    Yields (subjectComparison inner c) ts DerivesComparisons := by
  rw [subjectComparison, peek_bind]
  have hoperand (op : Operator) (hop : op.isComparison ∧ [c.head] = op.lexemes)
      (hhead : c.head.isMark) :
      Yields ((do
        skip
        return .binary .subject op (← sum inner) : Parser Expr) c) ts DerivesComparisons := by
    rw [skip_bind]
    refine .mark hc rfl hhead fun rest _ hrest => ?_
    refine (yields_anyLevel hinner .sum hrest).bind fun read left _ e c' hc' he => ?_
    exact yields_pure hc' (by simpa using .comparison hop he)
  cases hhead : c.head with
  | equal => exact hoperand .eq (by rw [hhead]; exact ⟨rfl, rfl⟩) (by rw [hhead]; rfl)
  | notEqual => exact hoperand .ne (by rw [hhead]; exact ⟨rfl, rfl⟩) (by rw [hhead]; rfl)
  | less => exact hoperand .lt (by rw [hhead]; exact ⟨rfl, rfl⟩) (by rw [hhead]; rfl)
  | lessEqual => exact hoperand .le (by rw [hhead]; exact ⟨rfl, rfl⟩) (by rw [hhead]; rfl)
  | greater => exact hoperand .gt (by rw [hhead]; exact ⟨rfl, rfl⟩) (by rw [hhead]; rfl)
  | greaterEqual => exact hoperand .ge (by rw [hhead]; exact ⟨rfl, rfl⟩) (by rw [hhead]; rfl)
  | _ => exact yields_error _

theorem yields_subjectComparisons (hc : c.At ts) :
    Yields (subjectComparisons inner c) ts DerivesComparisons := by
  have hconnected {choice : Choice} {op : Operator} (hop : op = .and ∨ op = .or)
      (hchoice : choice = op.level.choice) {c : Cursor} {ts : List Lexeme} {found : Operator}
      {double : Bool} (hc : c.At ts) (h : beforeComparison choice c = some (found, double)) :
      ∃ tm rest, ts = tm ++ rest ∧ (if double then c.next.next else c.next).At rest ∧
        ∀ {tl tr left right}, DerivesComparisons tl left → DerivesComparisons tr right →
          DerivesComparisons (tl ++ (tm ++ tr)) (.binary left found right) := by
    unfold beforeComparison at h
    split at h
    · rw [hchoice] at h
      obtain ⟨hpow, hlevel, tm, htm, rest, hts, hrest⟩ := choice_eq_some hc h
      have hfound : found = .and ∨ found = .or := by
        rcases hop with rfl | rfl <;> cases found <;> simp_all [Operator.level]
      exact ⟨tm, rest, hts, hrest, .connected hfound htm⟩
    · cases h
  refine yields_level (hconnected (.inr rfl) rfl) id (fun hc => ?_) hc
  exact yields_level (hconnected (.inl rfl) rfl) id (yields_subjectComparison hinner) hc

theorem yields_cellItem (hc : c.At ts) : Yields (cellItem inner c) ts DerivesCell := by
  rw [cellItem, get_bind]
  split
  · exact (yields_subjectComparisons hinner hc).imp fun _ _ h => .comparisons h
  · cases hchoice : membershipChoice c with
    | none =>
      refine (hinner.expression hc).bind fun read rest _ e c' hc' ⟨d, hd, he⟩ => ?_
      exact yields_pure hc' (by simpa using .expression hd he)
    | some found =>
      obtain ⟨op, double⟩ := found
      obtain ⟨-, hlevel, tm, htm, rest, rfl, hrest⟩ :=
        choice_eq_some (L := .membership) hc hchoice
      have hop : op.isMembership ∧ tm = op.lexemes := by
        cases op <;> simp_all [Operator.level, Operator.isMembership, Operator.spellings]
      have hskip : (do
          skip
          if double then skip
          return .binary .subject op (← sum inner) : Parser Expr) c = (do
          return .binary .subject op (← sum inner) : Parser Expr)
            (if double then c.next.next else c.next) := by
        cases double <;> rfl
      refine Yields.behind ?_
      dsimp only
      rw [hskip]
      refine (yields_anyLevel hinner .sum hrest).bind fun read left _ e c' hc' he => ?_
      refine yields_pure hc' ?_
      simpa [hop.2] using DerivesCell.membership hop.1 he

end

theorem commaChoice_eq_some {op : Operator} {double : Bool} (hc : c.At ts)
    (h : commaChoice c = some (op, double)) :
    op = .or ∧ ∃ rest, ts = [.comma] ++ rest ∧
      (if double then c.next.next else c.next).At rest := by
  unfold commaChoice at h
  cases hhead : c.head with
  | comma =>
    rw [hhead] at h
    cases h
    obtain ⟨rest, hts, hrest⟩ := hc.of_head (by rw [hhead]; nofun)
    exact ⟨rfl, rest, by rw [hts, hhead]; rfl, hrest⟩
  | _ =>
    rw [hhead] at h
    cases h

theorem yields_wholeCell (hc : c.At ts) (heof : .eof ∉ ts) :
    Yields (wholeCell c) ts fun _ e => DerivesCell ts e := by
  rw [wholeCell, left_bind]
  refine Yields.toEnd (yields_level (fun hc h => ?_) id (yields_cellItem (sound_inner _ _)) hc) heof
  obtain ⟨rfl, rest, hts, hrest⟩ := commaChoice_eq_some hc h
  exact ⟨[.comma], rest, hts, hrest, .alternatives⟩

end Parser

namespace Expr

/-- The tokens of an expression that is parsed stand for it. -/
theorem derives_of_parse {source : String} {e : Expr} (h : Expr.parse source = .ok e) :
    ∃ tokens ts d, Lexer.tokens source = .ok tokens ∧ tokens.map Token.lexeme = ts ++ [.eof] ∧
      maxNesting = d + 1 ∧ Derives d ts (.expression .conditional e) := by
  obtain ⟨-, tokens, c, htokens, hwhole⟩ := parse_eq_ok_iff.1 h
  obtain ⟨ts, hlexemes, heof⟩ := Lexer.exists_of_tokens htokens
  obtain ⟨_, _, -, -, d, hd, hderives⟩ :=
    Parser.yields_wholeExpression ⟨hlexemes, Nat.zero_le _⟩ heof e c hwhole
  exact ⟨tokens, ts, d, htokens, hlexemes, hd, hderives⟩

/-- So do those of a cell, unless nothing stands there or a hyphen. -/
theorem derives_of_parseCell {source : String} {e : Expr} (h : Expr.parseCell source = .ok e) :
    e = .bool true ∧ (Text.trim source = "" ∨ Text.trim source = "-") ∨
      ∃ tokens ts, Lexer.tokens (Text.trim source) = .ok tokens ∧
        tokens.map Token.lexeme = ts ++ [.eof] ∧ DerivesCell ts e := by
  rw [Expr.parseCell_eq_ok_iff] at h
  split at h
  · next hempty => exact .inl ⟨h, hempty⟩
  · obtain ⟨tokens, c, htokens, hwhole⟩ := h
    obtain ⟨ts, hlexemes, heof⟩ := Lexer.exists_of_tokens htokens
    obtain ⟨_, _, -, -, hderives⟩ :=
      Parser.yields_wholeCell ⟨hlexemes, Nat.zero_le _⟩ heof e c hwhole
    exact .inr ⟨tokens, ts, htokens, hlexemes, hderives⟩

end Expr
end RuleGraph

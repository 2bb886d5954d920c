import RuleGraph.Proofs.Parsing.Levels
/-!
# What is read between brackets

Arrays, intervals, objects and calls, if what stands between their commas is taken for
expressions.
-/
namespace RuleGraph
open RuleGraph.Parser Level

/-- What the expression is written with is taken for it where any expression may stand. -/
def Expr.IsTaken (e : Expr) : Prop :=
  Level.conditional.Takes e.lexemes e e.nesting e.operatorCount

def afterCommas (parts : List (List Lexeme)) : List Lexeme :=
  parts.flatMap (Lexeme.comma :: ·)

@[simp] theorem afterCommas_nil : afterCommas [] = [] := rfl

@[simp] theorem afterCommas_cons (part : List Lexeme) (parts : List (List Lexeme)) :
    afterCommas (part :: parts) = .comma :: (part ++ afterCommas parts) := by
  simp [afterCommas]

theorem commaSeparated_cons (part : List Lexeme) (parts : List (List Lexeme)) :
    commaSeparated (part :: parts) = part ++ afterCommas parts := by
  induction parts generalizing part with
  | nil => simp [commaSeparated]
  | cons next parts ih =>
    rw [afterCommas_cons, ← ih next]
    simp [commaSeparated, List.intercalate, List.intersperse]

theorem length_le_afterCommas (parts : List (List Lexeme)) :
    parts.length ≤ (afterCommas parts).length := by
  induction parts with
  | nil => exact Nat.le_refl 0
  | cons part parts ih =>
    simp only [afterCommas_cons, List.length_cons, List.length_append]
    omega

theorem endsAt_afterCommas {L : Level} {rest : List Lexeme} (h : L.EndsAt rest)
    (parts : List (List Lexeme)) : L.EndsAt (afterCommas parts ++ rest) := by
  cases parts with
  | nil => exact h
  | cons part parts =>
    rw [afterCommas_cons]
    exact endsAt_of_continued_eq_none fun _ => rfl

/-- Parts that are each taken for an expression, and what they take of the limits between
brackets. -/
inductive TakenAll : List (List Lexeme) → List Expr → Nat → Nat → Prop
  | nil : TakenAll [] [] 0 0
  | cons {ts tss e es m n m' n'} (h : Level.conditional.Takes ts e m n)
    (hs : TakenAll tss es m' n') : TakenAll (ts :: tss) (e :: es) (max (m + 1) m') (n + n')

/-- The same for entries, of which each begins with its key. -/
inductive TakenEntries : List (List Lexeme) → List (String × Expr) → Nat → Nat → Prop
  | nil : TakenEntries [] [] 0 0
  | cons {t ts tss key e es m n m' n'} (hkey : t.keyOf? = some key)
    (h : Level.conditional.Takes ts e m n) (hs : TakenEntries tss es m' n') :
    TakenEntries ((t :: .colon :: ts) :: tss) ((key, e) :: es) (max (m + 1) m') (n + n')

variable {fuel depth k m n m' n' : Nat} {c : Cursor} {rest ts trail : List Lexeme}
  {tss : List (List Lexeme)} {e : Expr} {es : List Expr} {entries : List (String × Expr)}

theorem endsAt_trail {L : Level} (htrail : trail = [] ∨ trail = [.comma]) {t : Lexeme}
    (ht : ∀ next, t.continued next = none) : L.EndsAt (trail ++ t :: rest) := by
  rcases htrail with rfl | rfl
  · exact endsAt_of_continued_eq_none ht
  · exact endsAt_of_continued_eq_none fun _ => rfl

theorem reads_itemsRest (h : TakenAll tss es m n) (htrail : trail = [] ∨ trail = [.comma])
    (items : List Expr) (hc : c.At (afterCommas tss ++ (trail ++ .closeBracket :: rest)))
    (hk : tss.length < k) (hfuel : (afterCommas tss).length ≤ fuel) :
    Reads (itemsRest (inner fuel depth) k items) c (items ++ es) (.closeBracket :: rest) depth
      m n := by
  obtain ⟨k, rfl⟩ : ∃ j, k = j + 1 := ⟨k - 1, by omega⟩
  induction h generalizing c k items with
  | nil =>
    rw [List.append_nil]
    rcases htrail with rfl | rfl
    · exact meets_of_at hc rfl (eat_else (by rw [hc.head]; rfl) _ _)
    · have hc : c.At (.comma :: .closeBracket :: rest) := hc
      refine meets_of_at hc.next (Cursor.next_operators c) ?_
      refine (eat_then (by rw [hc.head]; rfl) _ _).trans ?_
      rw [peek_bind, hc.next.head]
      rfl
  | @cons ts tss e es _ _ _ _ h hs ih =>
    simp only [afterCommas_cons, List.cons_append, List.append_assoc] at hc
    simp only [afterCommas_cons, List.length_cons, List.length_append] at hfuel hk
    obtain ⟨k, rfl⟩ : ∃ j, k = j + 1 := ⟨k - 1, by omega⟩
    have hends : Level.conditional.EndsAt
        (afterCommas tss ++ (trail ++ .closeBracket :: rest)) :=
      endsAt_afterCommas (endsAt_trail htrail fun _ => rfl) tss
    have hcomma : itemsRest (inner fuel depth) (k + 1 + 1) items c = (do
        let item ← (inner fuel depth).expression
        itemsRest (inner fuel depth) (k + 1) (items ++ [item]) : Parser (List Expr)) c.next := by
      refine (eat_then (by rw [hc.head]; rfl) _ _).trans ?_
      rw [peek_bind, h.head_beq_closing hc.next hends (.inl rfl)]
      rfl
    refine Meets.of_eq hcomma (Cursor.next_operators c) ?_
    refine (h.reads_expression hc.next hends (by omega)).bind fun c' hc' _ => ?_
    have hrest := ih (items ++ [e]) hc' (by omega) k (by omega)
    rwa [List.append_assoc, List.singleton_append] at hrest

theorem reads_argumentsRest (h : Level.conditional.Takes ts e m n) (hs : TakenAll tss es m' n')
    (args : List Expr) (hc : c.At (ts ++ (afterCommas tss ++ .closeParen :: rest)))
    (hk : tss.length < k) (hfuel : ts.length + (afterCommas tss).length < fuel) :
    Reads (argumentsRest (inner fuel depth) k args) c (args ++ e :: es) rest depth
      (max (m + 1) m') (n + n') := by
  obtain ⟨k, rfl⟩ : ∃ j, k = j + 1 := ⟨k - 1, by omega⟩
  induction hs generalizing c k args ts e m n with
  | nil =>
    have hends : Level.conditional.EndsAt (.closeParen :: rest) :=
      endsAt_of_continued_eq_none fun _ => rfl
    refine (h.reads_expression hc hends (by omega)).bind fun c' hc' _ => ?_
    refine meets_of_at hc'.next (Cursor.next_operators c') ?_
    exact eat_then (by rw [hc'.head]; rfl) _ _
  | cons h' hs ih =>
    simp only [afterCommas_cons, List.cons_append, List.append_assoc] at hc
    simp only [afterCommas_cons, List.length_cons, List.length_append] at hfuel hk
    obtain ⟨k, rfl⟩ : ∃ j, k = j + 1 := ⟨k - 1, by omega⟩
    refine (h.reads_expression hc (endsAt_of_continued_eq_none fun _ => rfl)
      (by omega)).bind fun c' hc' _ => ?_
    refine Meets.of_eq ((eat_else (by rw [hc'.head]; rfl) _ _).trans
      (expect_bind (by rw [hc'.head]; rfl) _ _)) (Cursor.next_operators c') ?_
    have hrest := ih h' (args ++ [e]) hc'.next (by omega) k (by omega)
    rwa [List.append_assoc, List.singleton_append] at hrest

theorem entriesRest_succ {t : Lexeme} {key : String} (hkey : t.keyOf? = some key)
    (hc : c.At (t :: .colon :: rest)) (inner : Inner) (k : Nat) (done : List (String × Expr)) :
    entriesRest inner (k + 1) done c = (do
      let value ← inner.expression
      if ← eat .comma then entriesRest inner k (done ++ [(key, value)])
      else
        expect .closeBrace .closeBrace
        return .object (done ++ [(key, value)]) : Parser Expr) c.next.next := by
  cases t <;> cases hkey
  all_goals
    simp only [entriesRest, peek_bind, skip_bind, hc.head]
    exact expect_bind (by rw [hc.next.head]; rfl) _ _

theorem reads_entriesRest {t : Lexeme} {key : String} (hkey : t.keyOf? = some key)
    (h : Level.conditional.Takes ts e m n) (hs : TakenEntries tss entries m' n')
    (htrail : trail = [] ∨ trail = [.comma]) (done : List (String × Expr))
    (hc : c.At (t :: .colon :: (ts ++ (afterCommas tss ++ (trail ++ .closeBrace :: rest)))))
    (hk : tss.length + 1 < k) (hfuel : ts.length + (afterCommas tss).length < fuel) :
    Reads (entriesRest (inner fuel depth) k done) c (.object (done ++ (key, e) :: entries)) rest
      depth (max (m + 1) m') (n + n') := by
  obtain ⟨k, rfl⟩ : ∃ j, k = j + 1 := ⟨k - 1, by omega⟩
  have hcount : c.next.next.operators = c.operators := by simp
  refine Meets.of_eq (entriesRest_succ hkey hc _ k done) hcount ?_
  induction hs generalizing c k done t ts key e m n with
  | nil =>
    have hends : Level.conditional.EndsAt (trail ++ .closeBrace :: rest) :=
      endsAt_trail htrail fun _ => rfl
    refine (h.reads_expression hc.next.next hends (by omega)).bind fun c' hc' _ => ?_
    rcases htrail with rfl | rfl
    · refine meets_of_at hc'.next (Cursor.next_operators c') ?_
      exact (eat_else (by rw [hc'.head]; rfl) _ _).trans (expect_bind (by rw [hc'.head]; rfl) _ _)
    · have hc' : c'.At (.comma :: .closeBrace :: rest) := hc'
      obtain ⟨k, rfl⟩ : ∃ j, k = j + 1 := ⟨k - 1, by omega⟩
      refine meets_of_at hc'.next.next (by simp) ?_
      refine (eat_then (by rw [hc'.head]; rfl) _ _).trans ?_
      rw [entriesRest, peek_bind, hc'.next.head]
      rfl
  | cons hkey' h' hs ih =>
    simp only [afterCommas_cons, List.cons_append, List.append_assoc] at hc
    simp only [afterCommas_cons, List.length_cons, List.length_append] at hfuel hk
    obtain ⟨k, rfl⟩ : ∃ j, k = j + 1 := ⟨k - 1, by omega⟩
    refine (h.reads_expression hc.next.next (endsAt_of_continued_eq_none fun _ => rfl)
      (by omega)).bind fun c' hc' _ => ?_
    refine Meets.of_eq (eat_then (by rw [hc'.head]; rfl) _ _) (Cursor.next_operators c') ?_
    refine Meets.of_eq (entriesRest_succ hkey' hc'.next _ k _) (by simp) ?_
    have hrest := ih hkey' h' (done ++ [(key, e)]) hc'.next (by omega) k (by omega) (by simp)
    rwa [List.append_assoc, List.singleton_append] at hrest

theorem takes_emptyArray : Level.atom.Takes [.openBracket, .closeBracket] (.array []) 0 0 := by
  refine takes_of_reads rfl (by decide) fun fuel depth c rest hc _ _ => ?_
  have hc : c.At (.openBracket :: .closeBracket :: rest) := hc
  refine meets_of_at hc.next.next (by simp) ?_
  change primary _ c = _
  rw [primary, peek_bind, hc.head]
  exact eat_then (by rw [hc.next.head]; rfl) _ _

theorem takes_array (h : TakenAll tss es m n) (hes : es ≠ [])
    (htrail : trail = [] ∨ trail = [.comma]) :
    Level.atom.Takes (.openBracket :: (commaSeparated tss ++ trail) ++ [.closeBracket]) (.array es)
      m n := by
  refine takes_of_reads rfl (by decide) fun fuel depth c rest hc _ hfuel => ?_
  have hopen : primary (inner fuel depth) c = bracketRest (inner fuel depth) c.next := by
    simp only [List.cons_append] at hc
    rw [primary, peek_bind, hc.head]
    rfl
  refine Meets.of_eq hopen (Cursor.next_operators c) ?_
  cases h with
  | nil => contradiction
  | @cons ts tss e es _ _ _ _ h hs =>
    simp only [commaSeparated_cons, List.cons_append, List.append_assoc, List.nil_append] at hc
    simp only [commaSeparated_cons, List.length_cons, List.length_append, List.length_nil]
      at hfuel
    have hends : Level.conditional.EndsAt
        (afterCommas tss ++ (trail ++ .closeBracket :: rest)) :=
      endsAt_afterCommas (endsAt_trail htrail fun _ => rfl) tss
    refine Meets.of_eq (eat_else (h.head_beq_closing hc.next hends (.inl rfl)) _ _) rfl ?_
    refine (h.reads_expression hc.next hends (by omega)).bind fun c' hc' _ => ?_
    have hdots : (c'.head == .dots) = false := by
      rw [hc'.head_eq]
      cases tss with
      | nil => rcases htrail with rfl | rfl <;> rfl
      | cons ts' tss => rfl
    refine Meets.of_eq (eat_else hdots _ _) rfl ?_
    refine Meets.of_eq (left_bind _ c') rfl ?_
    have hlength := length_le_afterCommas tss
    refine (reads_itemsRest hs htrail [e] hc' (by rw [hc'.length, List.length_append]; omega)
      (by omega)).bind_at fun c'' hc'' _ =>
        ⟨c''.next, hc''.next, Cursor.next_operators c'', ?_⟩
    exact expect_bind (by rw [hc''.head]; rfl) _ _

theorem primary_of_openBrace (hc : c.At (.openBrace :: rest)) (inner : Inner) :
    primary inner c = entriesRest inner c.next.tokens.length [] c.next := by
  rw [primary, peek_bind, hc.head]
  rfl

theorem takes_emptyObject : Level.atom.Takes [.openBrace, .closeBrace] (.object []) 0 0 := by
  refine takes_of_reads rfl (by decide) fun fuel depth c rest hc _ _ => ?_
  have hc : c.At (.openBrace :: .closeBrace :: rest) := hc
  refine meets_of_at hc.next.next (by simp) ?_
  change primary _ c = _
  rw [primary_of_openBrace hc, hc.next.length, List.length_cons, entriesRest, peek_bind,
    hc.next.head]
  rfl

theorem takes_object (h : TakenEntries tss entries m n) (hentries : entries ≠ [])
    (htrail : trail = [] ∨ trail = [.comma]) :
    Level.atom.Takes (.openBrace :: (commaSeparated tss ++ trail) ++ [.closeBrace])
      (.object entries) m n := by
  refine takes_of_reads rfl (by decide) fun fuel depth c rest hc _ hfuel => ?_
  cases h with
  | nil => contradiction
  | @cons t ts tss key e entries _ _ _ _ hkey h hs =>
    simp only [commaSeparated_cons, List.cons_append, List.append_assoc, List.nil_append] at hc
    simp only [commaSeparated_cons, List.length_cons, List.length_append, List.length_nil]
      at hfuel
    have hlength := length_le_afterCommas tss
    refine Meets.of_eq (primary_of_openBrace hc _) (Cursor.next_operators c) ?_
    exact reads_entriesRest hkey h hs htrail [] hc.next
      (by simp only [hc.next.length, List.length_cons, List.length_append]; omega) (by omega)

theorem ofName?_name (f : Builtin) : Builtin.ofName? f.name = some f := by
  cases f <;> rfl

section
variable {name : String} {f : Builtin}

theorem primary_of_call (hname : Builtin.ofName? name = some f)
    (hc : c.At (.identifier name :: .openParen :: rest)) (inner : Inner) :
    primary inner c = (eat .closeParen >>= fun b =>
      if b = true then if f.accepts 0 then pure (.call f []) else throw (.invalidArity f 0)
      else left >>= fun k => argumentsRest inner k [] >>= fun args =>
        if f.accepts args.length then pure (.call f args)
        else throw (.invalidArity f args.length) : Parser Expr) c.next.next := by
  rw [primary, peek_bind, hc.head]
  change (peek >>= fun t => if (t == .openParen) = true then callRest _ name else _) c.next = _
  rw [peek_bind, hc.next.head]
  change callRest _ name c.next = _
  rw [callRest, hname]
  exact expect_bind (by rw [hc.next.head]; rfl) _ _

theorem takes_emptyCall (hname : Builtin.ofName? name = some f) (hcount : f.accepts 0) :
    Level.atom.Takes [.identifier name, .openParen, .closeParen] (.call f []) 0 0 := by
  refine takes_of_reads rfl (by decide) fun fuel depth c rest hc _ _ => ?_
  have hc : c.At (.identifier name :: .openParen :: .closeParen :: rest) := hc
  refine Meets.of_eq (primary_of_call hname hc _) (by simp) ?_
  refine meets_of_at hc.next.next.next (Cursor.next_operators _) ?_
  refine (eat_then (by rw [hc.next.next.head]; rfl) _ _).trans ?_
  rw [if_pos hcount]
  rfl

theorem takes_call (hname : Builtin.ofName? name = some f) (hcount : f.accepts es.length)
    (h : TakenAll tss es m n) (hes : es ≠ []) :
    Level.atom.Takes (.identifier name :: (.openParen :: commaSeparated tss ++ [.closeParen]))
      (.call f es) m n := by
  refine takes_of_reads rfl (by decide) fun fuel depth c rest hc _ hfuel => ?_
  cases h with
  | nil => contradiction
  | @cons ts tss e es _ _ _ _ h hs =>
    simp only [commaSeparated_cons, List.cons_append, List.append_assoc, List.nil_append] at hc
    simp only [commaSeparated_cons, List.length_cons, List.length_append, List.length_nil]
      at hfuel
    refine Meets.of_eq (primary_of_call hname hc _) (by simp) ?_
    have hends : Level.conditional.EndsAt (afterCommas tss ++ .closeParen :: rest) :=
      endsAt_afterCommas (endsAt_of_continued_eq_none fun _ => rfl) tss
    have hlength := length_le_afterCommas tss
    refine Meets.of_eq (eat_else (h.head_beq_closing hc.next.next hends (.inr rfl)) _ _) rfl ?_
    refine Meets.of_eq (left_bind _ _) rfl ?_
    refine (reads_argumentsRest h hs [] hc.next.next
      (by simp only [hc.next.next.length, List.length_append]; omega)
      (by omega)).bind_at fun c' hc' _ => ⟨c', hc', rfl, ?_⟩
    rw [List.nil_append, if_pos hcount]
    rfl

end

theorem reads_intervalRest {start stop : Expr} {ts : List Lexeme} {m n : Nat}
    (hstop : Level.sum.Takes ts stop m n) (startIncluded stopIncluded : Bool)
    (hc : c.At (ts ++ (if stopIncluded then .closeBracket else .closeParen) :: rest))
    (hfuel : ts.length < fuel) :
    Reads (intervalRest (inner fuel depth) start startIncluded) c
      (.interval start stop startIncluded stopIncluded) rest depth m n := by
  have hends : Level.sum.EndsAt
      ((if stopIncluded then .closeBracket else .closeParen) :: rest) := by
    cases stopIncluded <;> exact endsAt_of_continued_eq_none fun _ => rfl
  refine (hstop.reads_bound hc hends hfuel).bind_at fun c' hc' _ =>
    ⟨c'.next, hc'.next, Cursor.next_operators c', ?_⟩
  rw [peek_bind, hc'.head]
  cases stopIncluded <;> rfl

theorem takes_interval {start stop : Expr} {ts tt : List Lexeme} {m n m' n' : Nat}
    (hstart : Level.conditional.Takes ts start m n) (hstop : Level.sum.Takes tt stop m' n')
    (startIncluded stopIncluded : Bool) :
    Level.atom.Takes ((if startIncluded then .openBracket else .openParen) :: ts ++ .dots :: tt ++
        [if stopIncluded then .closeBracket else .closeParen])
      (.interval start stop startIncluded stopIncluded) (max (m + 1) m') (n + n') := by
  refine takes_of_reads rfl (by decide) fun fuel depth c rest hc _ hfuel => ?_
  simp only [List.cons_append, List.append_assoc, List.nil_append] at hc
  simp only [List.length_cons, List.length_append, List.length_nil] at hfuel
  have hends : Level.conditional.EndsAt (.dots :: (tt ++
      (if stopIncluded then .closeBracket else .closeParen) :: rest)) :=
    endsAt_of_continued_eq_none fun _ => rfl
  cases startIncluded with
  | true =>
    have hopen : primary (inner fuel depth) c = bracketRest (inner fuel depth) c.next := by
      rw [primary, peek_bind, hc.head]
      rfl
    refine Meets.of_eq hopen (Cursor.next_operators c) ?_
    refine Meets.of_eq (eat_else (hstart.head_beq_closing hc.next hends (.inl rfl)) _ _) rfl ?_
    refine (hstart.reads_expression hc.next hends (by omega)).bind fun c' hc' _ => ?_
    refine Meets.of_eq (eat_then (by rw [hc'.head]; rfl) _ _) (Cursor.next_operators c') ?_
    exact reads_intervalRest hstop true stopIncluded hc'.next (by omega)
  | false =>
    have hopen : primary (inner fuel depth) c = parenRest (inner fuel depth) c.next := by
      rw [primary, peek_bind, hc.head]
      rfl
    refine Meets.of_eq hopen (Cursor.next_operators c) ?_
    refine (hstart.reads_expression hc.next hends (by omega)).bind fun c' hc' _ => ?_
    refine Meets.of_eq (eat_then (by rw [hc'.head]; rfl) _ _) (Cursor.next_operators c') ?_
    exact reads_intervalRest hstop false stopIncluded hc'.next (by omega)

end RuleGraph

import RuleGraph.Proofs.Parsing.Levels
/-!
# What the constructs of the grammar read

For each construct, the level that takes its tokens for it, if its parts are taken on the levels
where they stand.
-/
namespace RuleGraph
open RuleGraph.Parser Level

variable {e left right base key : Expr} {ts tl tr tb tk : List Lexeme} {m n m' n' : Nat}

theorem takes_atom {t : Lexeme} (h : atom? t = some e) : Level.atom.Takes [t] e 0 0 := by
  refine takes_of_reads rfl (by decide) fun fuel depth c rest hc _ _ => ?_
  refine meets_of_at hc.next (Cursor.next_operators c) ?_
  change primary _ c = _
  rw [primary, peek_bind, hc.head, h]
  rfl

theorem takes_prefixed {t : Lexeme} {f : Expr → Expr} (h : Level.sign.Takes ts e m n)
    (ht : ∀ (inner : Inner) (c : Cursor), c.head = t →
      signed inner c = (inner.signed >>= fun e => pure (f e)) c.next) :
    Level.sign.Takes (t :: ts) (f e) (m + 1) n := by
  refine takes_of_reads rfl (by decide) fun fuel depth c rest hc hrest hfuel => ?_
  refine Meets.of_eq (ht _ c hc.head) (Cursor.next_operators c) ?_
  exact (h.reads_signed hc.next hrest hfuel).bind_at fun c' hc' _ => ⟨c', hc', rfl, rfl⟩

theorem takes_minus (h : Level.sign.Takes ts e m n) :
    Level.sign.Takes (.minus :: ts) (negated e) (m + 1) n :=
  takes_prefixed h fun inner c hhead => by
    rw [signed, peek_bind, hhead]
    rfl

theorem takes_not {t : Lexeme} (ht : t = .notWord ∨ t = .bang) (h : Level.sign.Takes ts e m n) :
    Level.sign.Takes (t :: ts) (.unary .not e) (m + 1) n :=
  takes_prefixed h fun inner c hhead => by
    rw [signed, peek_bind, hhead]
    rcases ht with rfl | rfl <;> rfl

theorem takes_identifier (name : String) :
    Level.atom.Takes [.identifier name] (.field [name]) 0 0 := by
  refine takes_of_reads rfl (by decide) fun fuel depth c rest hc hrest _ => ?_
  refine meets_of_at hc.next (Cursor.next_operators c) ?_
  have hother := hrest.continued_ne hc.next
  change primary _ c = _
  rw [primary, peek_bind, hc.head]
  change (peek >>= fun t => if (t == .openParen) = true then callRest _ name else _) c.next = _
  rw [peek_bind]
  cases hhead : c.next.head <;>
    first | rfl | simp [hhead, Lexeme.continued] at hother

theorem takes_member (h : Level.access.Takes ts e m n) (name : String) :
    Level.access.Takes (ts ++ [.dot, .identifier name]) (memberOf e name) m n := by
  intro fuel depth c rest hc hrest hfuel
  simp only [List.append_assoc, List.cons_append, List.nil_append] at hc
  rw [List.length_append] at hfuel
  have hdot : Level.access.boundary.EndsAt (.dot :: .identifier name :: rest) := by
    rintro K ⟨⟩
    decide
  refine ((h hc hdot (by omega)).followed fun c' hc' _ ⟨k, hk, hp⟩ => ?_).congr (Nat.max_zero m)
    (Nat.add_zero n)
  have hk : c'.tokens.length ≤ k := hk
  obtain ⟨k, rfl⟩ : ∃ j, k = j + 1 := ⟨k - 1, by rw [hc'.length] at hk; omega⟩
  refine ⟨_, hp, meets_of_at hc'.next.next (by simp) ⟨k, ?_, ?_⟩⟩
  · change c'.next.next.tokens.length ≤ k
    rw [hc'.length] at hk
    rw [hc'.next.next.length]
    rw [List.length_cons, List.length_cons] at hk
    omega
  · change accessRest _ (k + 1) e c' = accessRest _ k (memberOf e name) _
    simp only [accessRest, peek_bind, skip_bind, hc'.head, hc'.next.head]

theorem takes_index (hbase : Level.access.Takes tb base m n)
    (hkey : Level.conditional.Takes tk key m' n') :
    Level.access.Takes (tb ++ (.openBracket :: tk ++ [.closeBracket])) (.index base key)
      (max m (m' + 1)) (n + n') := by
  intro fuel depth c rest hc hrest hfuel
  simp only [List.cons_append, List.append_assoc, List.nil_append] at hc
  simp only [List.length_append, List.length_cons, List.length_nil] at hfuel
  have hbracket : Level.access.boundary.EndsAt (.openBracket :: (tk ++ .closeBracket :: rest)) := by
    rintro K ⟨⟩
    decide
  refine (hbase hc hbracket (by omega)).followed fun c' hc' _ ⟨k, hk, hp⟩ => ⟨_, hp, ?_⟩
  have hk : c'.tokens.length ≤ k := hk
  rw [hc'.length] at hk
  simp only [List.length_append, List.length_cons] at hk
  obtain ⟨k, rfl⟩ : ∃ j, k = j + 1 := ⟨k - 1, by omega⟩
  have hopen : accessRest (inner fuel depth) (k + 1) base c' = (do
      let key ← (inner fuel depth).expression
      expect .closeBracket .closeBracket
      accessRest (inner fuel depth) k (.index base key) : Parser Expr) c'.next := by
    rw [accessRest, peek_bind, hc'.head]
    rfl
  refine Meets.of_eq hopen (Cursor.next_operators c') ?_
  refine (hkey.reads_expression hc'.next (endsAt_of_continued_eq_none fun _ => rfl)
    (by omega)).bind_at fun c'' hc'' _ =>
      ⟨c''.next, hc''.next, Cursor.next_operators c'', k, ?_, ?_⟩
  · change c''.next.tokens.length ≤ k
    rw [hc''.next.length]
    omega
  · rw [expect_bind (by rw [hc''.head]; rfl)]
    rfl

theorem isChain_level {op : Operator} (hop : op ≠ .pow) : op.level.isChain := by
  cases op <;> first | rfl | contradiction

theorem endsAt_spelling {op : Operator} {tm : List Lexeme} (htm : tm ∈ op.spellings) {L : Level}
    (h : op.level.rank < L.rank) (rest : List Lexeme) : L.EndsAt (tm ++ rest) := by
  intro K hK
  have : K = op.level := by
    cases op
    case and | or =>
      simp only [Operator.spellings, List.mem_cons, List.not_mem_nil, or_false] at htm
      rcases htm with rfl | rfl <;> simp_all [Operator.level, Lexeme.continued]
    all_goals
      obtain rfl := List.mem_singleton.1 htm
      simp_all [Operator.lexemes, Operator.level, Lexeme.continued]
  rwa [this]

theorem chain_succ {op : Operator} (hop : op ≠ .pow) {tm : List Lexeme} (htm : tm ∈ op.spellings)
    {c : Cursor} {rest : List Lexeme} (hc : c.At (tm ++ rest)) (operand : Parser Expr) (k : Nat)
    (e : Expr) :
    ∃ c' : Cursor, c'.At rest ∧ c'.operators = c.operators ∧
      chain op.level.choice operand (k + 1) e c = (do
        countOperator
        let right ← operand
        chain op.level.choice operand k (.binary e op right) : Parser Expr) c' := by
  rw [chain, get_bind, choice_of_op hop htm hc]
  by_cases hdouble : op = .notMember
  · subst hdouble
    obtain rfl := List.mem_singleton.1 htm
    have hc : c.At (.notWord :: .inWord :: rest) := hc
    exact ⟨c.next.next, hc.next.next, by simp, rfl⟩
  · obtain ⟨t, rfl⟩ : ∃ t, tm = [t] := by
      cases op
      case and | or =>
        simp only [Operator.spellings, List.mem_cons, List.not_mem_nil, or_false] at htm
        rcases htm with rfl | rfl <;> exact ⟨_, rfl⟩
      case notMember | pow => contradiction
      all_goals exact ⟨_, List.mem_singleton.1 htm⟩
    exact ⟨c.next, hc.next, Cursor.next_operators c, by rw [decide_eq_false hdouble]; rfl⟩

theorem takes_binary {op : Operator} (hop : op ≠ .pow) {tm : List Lexeme}
    (htm : tm ∈ op.spellings) (hleft : op.level.Takes tl left m n)
    (hright : op.level.tighter.Takes tr right m' n') :
    op.level.Takes (tl ++ (tm ++ tr)) (.binary left op right) (max m m') (n + 1 + n') := by
  intro fuel depth c rest hc hrest hfuel
  have hchain := isChain_level hop
  have haccess : op.level ≠ .access := fun h => by rw [h] at hchain; cases hchain
  have hboundary : op.level.boundary = op.level.tighter := if_pos (.inl hchain)
  have htighter : op.level.rank < op.level.tighter.rank := by
    cases op <;> decide
  simp only [List.append_assoc] at hc
  simp only [List.length_append] at hfuel
  rw [hboundary] at hrest
  refine ((hleft hc (hboundary ▸ endsAt_spelling htm htighter _) (by omega)).followed
    fun c' hc' _ ⟨k, hk, hp⟩ => ⟨_, hp, ?_⟩).congr (by omega : max m (max 0 m') = _)
      (by omega : n + (1 + n') = _)
  rw [Enough, if_neg haccess] at hk
  have hle := hc'.operators_le
  obtain ⟨k, rfl⟩ : ∃ j, k = j + 1 := ⟨k - 1, by omega⟩
  rw [resume, if_neg haccess]
  obtain ⟨c₁, hc₁, hcount₁, hstep⟩ :=
    chain_succ hop htm hc' (op.level.tighter.parser (inner fuel depth)) k left
  refine Meets.of_eq hstep hcount₁ ?_
  refine (reads_countOperator hc₁).bind fun c₂ hc₂ hcount₂ => ?_
  refine (hright.reads hc₂ hrest (by omega)).bind_at fun c₃ hc₃ hcount₃ =>
    ⟨c₃, hc₃, rfl, k, ?_, ?_⟩
  · rw [Enough, if_neg haccess]
    omega
  · rw [resume, if_neg haccess]

theorem continued_ne_sign (t next : Lexeme) : t.continued next ≠ some .sign := by
  unfold Lexeme.continued
  split <;> nofun

theorem takes_power (hbase : Level.access.Takes tb base m n)
    (hexponent : Level.sign.Takes ts e m' n') :
    Level.power.Takes (tb ++ .caret :: ts) (.binary base .pow e) (max m (m' + 1)) (n + n') := by
  refine takes_of_reads rfl (by decide) fun fuel depth c rest hc hrest hfuel => ?_
  simp only [List.append_assoc, List.cons_append] at hc
  simp only [List.length_append, List.length_cons] at hfuel
  -- No token continues a sign, so that what ends a power ends a sign in front of it.
  have hsign : Level.sign.EndsAt rest := fun K hK => by
    have hK' := hrest K hK
    have hne : K ≠ .sign := fun h => continued_ne_sign _ _ (h ▸ hK)
    cases K <;> first | decide | contradiction
  have hcaret : Level.access.EndsAt (.caret :: (ts ++ rest)) := by
    rintro K ⟨⟩
    decide
  refine (hbase.reads hc hcaret (by omega)).bind fun c' hc' _ => ?_
  refine Meets.of_eq (eat_then (by rw [hc'.head]; rfl) _ _) (Cursor.next_operators c') ?_
  exact (hexponent.reads_signed hc'.next hsign (by omega)).bind_at fun c'' hc'' _ =>
    ⟨c'', hc'', rfl, rfl⟩

theorem takes_ternary {condition yes no : Expr} {tc ty tn : List Lexeme} {mc nc my ny mn nn : Nat}
    (hcondition : Level.coalescence.Takes tc condition mc nc)
    (hyes : Level.conditional.Takes ty yes my ny) (hno : Level.conditional.Takes tn no mn nn) :
    Level.conditional.Takes (tc ++ .question :: (ty ++ .colon :: tn)) (.ternary condition yes no)
      (max mc (max (my + 1) (mn + 1))) (nc + ny + nn) := by
  refine takes_of_reads rfl (by decide) fun fuel depth c rest hc hrest hfuel => ?_
  simp only [List.append_assoc, List.cons_append] at hc
  simp only [List.length_append, List.length_cons] at hfuel
  have hquestion : Level.coalescence.EndsAt (.question :: (ty ++ .colon :: (tn ++ rest))) := by
    rintro K ⟨⟩
    decide
  refine Meets.congr ((hcondition.reads hc hquestion (by omega)).bind fun c₁ hc₁ _ => ?_) rfl
    (Nat.add_assoc nc ny nn).symm
  refine Meets.of_eq (eat_then (by rw [hc₁.head]; rfl) _ _) (Cursor.next_operators c₁) ?_
  refine (hyes.reads_expression hc₁.next (endsAt_of_continued_eq_none fun _ => rfl)
    (by omega)).bind fun c₂ hc₂ _ => ?_
  refine Meets.of_eq (expect_bind (by rw [hc₂.head]; rfl) _ _) (Cursor.next_operators c₂) ?_
  exact (hno.reads_expression hc₂.next hrest (by omega)).bind_at fun c₃ hc₃ _ =>
    ⟨c₃, hc₃, rfl, rfl⟩

end RuleGraph

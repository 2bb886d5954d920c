import RuleGraph.Proofs.Parsing.Rendering
import RuleGraph.Proofs.Results
/-!
# Reading written tokens

What a parser makes of tokens that begin with written ones. It stands behind them with what they
are written for, or it has come to one of its two limits, and the limits alone decide which.
-/
namespace RuleGraph

/-- The parser stops at one of its two limits. -/
def ParseError.IsLimit : ParseError → Prop
  | .malformed _ .tooDeep | .malformed _ .tooManyOperators => True
  | _ => False

namespace Cursor

/-- A cursor before the given lexemes and the end of the text, within the limit of operators. -/
structure At (c : Cursor) (ts : List Lexeme) : Prop where
  lexemes : c.tokens.map Token.lexeme = ts ++ [.eof]
  operators_le : c.operators ≤ maxOperators

variable {c : Cursor} {t : Lexeme} {ts : List Lexeme}

theorem At.head_eq (h : c.At ts) : c.head = ts.headD .eof := by
  obtain ⟨tokens, n⟩ := c
  obtain ⟨h, -⟩ := h
  cases tokens with
  | nil => simp at h
  | cons t' tokens => cases ts <;> simp_all [head]

theorem At.second_eq (h : c.At ts) : c.second = ts.tail.headD .eof := by
  obtain ⟨tokens, n⟩ := c
  obtain ⟨h, -⟩ := h
  match tokens, ts with
  | [], _ => simp at h
  | [_], [] => rfl
  | [_], t :: ts => simp at h
  | _ :: _ :: _, [] => simp at h
  | _ :: _ :: _, [t] => simp_all [second]
  | _ :: _ :: _, t :: u :: ts => simp_all [second]

theorem At.head (h : c.At (t :: ts)) : c.head = t :=
  h.head_eq

theorem At.next (h : c.At (t :: ts)) : c.next.At ts := by
  obtain ⟨tokens, n⟩ := c
  obtain ⟨h, hn⟩ := h
  match tokens with
  | [] => simp at h
  | [_] => simp at h
  | _ :: t' :: rest => exact ⟨by simp_all [Cursor.next], hn⟩

@[simp] theorem next_operators (c : Cursor) : c.next.operators = c.operators := by
  unfold next
  split <;> rfl

theorem At.length (h : c.At ts) : c.tokens.length = ts.length + 1 := by
  simpa using congrArg List.length h.lexemes

end Cursor

namespace Parser
variable {α β : Type}

@[simp] theorem pure_apply (a : α) (c : Cursor) : (pure a : Parser α) c = .ok (a, c) := rfl

theorem get_bind (f : Cursor → Parser β) (c : Cursor) : (get >>= f) c = f c c := rfl

theorem peek_bind (f : Lexeme → Parser β) (c : Cursor) : (peek >>= f) c = f c.head c := rfl

theorem skip_bind (f : Unit → Parser β) (c : Cursor) : (skip >>= f) c = f () c.next := rfl

theorem left_bind (f : Nat → Parser β) (c : Cursor) : (left >>= f) c = f c.tokens.length c := rfl

theorem eat_then {t : Lexeme} {c : Cursor} (h : (c.head == t) = true) (p q : Parser β) :
    (eat t >>= fun b => if b = true then p else q) c = p c.next := by
  change (eat t c >>= fun r => (if r.1 = true then p else q) r.2) = _
  rw [eat, if_pos h]
  rfl

theorem eat_else {t : Lexeme} {c : Cursor} (h : (c.head == t) = false) (p q : Parser β) :
    (eat t >>= fun b => if b = true then p else q) c = q c := by
  change (eat t c >>= fun r => (if r.1 = true then p else q) r.2) = _
  rw [eat, h]
  rfl

theorem expect_bind {t : Lexeme} {c : Cursor} (h : (c.head == t) = true) (what : Expected)
    (f : Unit → Parser β) : (expect t what >>= f) c = f () c.next := by
  change ((eat t >>= fun b => if b = true then pure () else refuse what) c >>= fun r =>
    f r.1 r.2) = _
  rw [eat_then h]
  rfl

theorem expect_bind_of_ne {t : Lexeme} {c : Cursor} (h : (c.head == t) = false) (what : Expected)
    (f : Unit → Parser β) : (expect t what >>= f) c = .error (c.unexpected what) := by
  change ((eat t >>= fun b => if b = true then pure () else refuse what) c >>= fun r =>
    f r.1 r.2) = _
  rw [eat_else h]
  rfl

theorem toEnd_eq_ok_iff {p : Parser α} {c d : Cursor} {a : α} :
    (do
      let a ← p
      expectEnd
      return a : Parser α) c = .ok (a, d) ↔ p c = .ok (a, d) ∧ d.head = .eof := by
  have hend (a : α) (d : Cursor) (r : α × Cursor) :
      (expectEnd >>= fun _ => pure a : Parser α) d = .ok r ↔ d.head = .eof ∧ (a, d) = r := by
    rw [expectEnd, bind_assoc, peek_bind]
    cases d.head with
    | eof => exact ⟨fun h => ⟨rfl, Except.ok.inj h⟩, fun h => congrArg Except.ok h.2⟩
    | _ => exact ⟨nofun, nofun⟩
  change (p c >>= fun r => (expectEnd >>= fun _ => pure r.1 : Parser α) r.2) = _ ↔ _
  simp only [bind_eq_ok, hend]
  constructor
  · rintro ⟨⟨b, e⟩, hp, heof, ⟨⟩⟩
    exact ⟨hp, heof⟩
  · rintro ⟨hp, heof⟩
    exact ⟨(a, d), hp, heof, rfl⟩

/-- A parser reads from a cursor on up to `rest` and its outcome is as `R` says, if the `need`ed
levels of nesting are among `depth` ones and `count` more operators are within the limit; otherwise
it stops at a limit. -/
def Meets (R : Except ParseError (α × Cursor) → Cursor → Prop) (p : Parser α) (c : Cursor)
    (rest : List Lexeme) (depth need count : Nat) : Prop :=
  if need ≤ depth ∧ c.operators + count ≤ maxOperators then
    ∃ c' : Cursor, c'.At rest ∧ c'.operators = c.operators + count ∧ R (p c) c'
  else ∃ e : ParseError, p c = .error e ∧ e.IsLimit

/-- The same where the parser makes `a` of what it reads. -/
abbrev Reads (p : Parser α) (c : Cursor) (a : α) (rest : List Lexeme) (depth need count : Nat) :
    Prop :=
  Meets (fun outcome c' => outcome = .ok (a, c')) p c rest depth need count

variable {R : Except ParseError (α × Cursor) → Cursor → Prop} {p : Parser α} {c : Cursor} {a : α}
  {mid rest : List Lexeme} {depth m n m' n' : Nat}

theorem Meets.imp {R' : Except ParseError (α × Cursor) → Cursor → Prop}
    (h : Meets R p c rest depth m n) (hR : ∀ c', c'.At rest → R (p c) c' → R' (p c) c') :
    Meets R' p c rest depth m n := by
  unfold Meets at h ⊢
  split at h
  · rename_i hroom
    obtain ⟨c', hc', hcount, h⟩ := h
    rw [if_pos hroom]
    exact ⟨c', hc', hcount, hR c' hc' h⟩
  · rename_i hroom
    rwa [if_neg hroom]

/-- A parser that is as far as another one behind some of the tokens goes on like it. -/
theorem Meets.followed {R' : Except ParseError (α × Cursor) → Cursor → Prop}
    (h : Meets R p c mid depth m n)
    (hq : ∀ c', c'.At mid → c'.operators = c.operators + n → R (p c) c' →
      ∃ q : Parser α, p c = q c' ∧ Meets R' q c' rest depth m' n') :
    Meets R' p c rest depth (max m m') (n + n') := by
  unfold Meets at h
  split at h
  · rename_i hroom
    obtain ⟨c', hc', hcount, h⟩ := h
    obtain ⟨q, hpq, hq⟩ := hq c' hc' hcount h
    have hroom' : (max m m' ≤ depth ∧ c.operators + (n + n') ≤ maxOperators) ↔
        (m' ≤ depth ∧ c'.operators + n' ≤ maxOperators) := by omega
    unfold Meets at hq ⊢
    simpa only [hpq, hroom', hcount, Nat.add_assoc] using hq
  · rename_i hroom
    unfold Meets
    rwa [if_neg (by omega)]

theorem Reads.bind {R' : Except ParseError (β × Cursor) → Cursor → Prop} {f : α → Parser β}
    (h : Reads p c a mid depth m n)
    (hf : ∀ c', c'.At mid → c'.operators = c.operators + n →
      Meets R' (f a) c' rest depth m' n') :
    Meets R' (p >>= f) c rest depth (max m m') (n + n') := by
  have hbegin : Meets (fun outcome c' => outcome = f a c') (p >>= f) c mid depth m n := by
    unfold Reads Meets at h
    unfold Meets
    split at h
    · rename_i hroom
      obtain ⟨c', hc', hcount, h⟩ := h
      rw [if_pos hroom]
      exact ⟨c', hc', hcount, by change (p c >>= fun r => f r.1 r.2) = _; rw [h]; rfl⟩
    · rename_i hroom
      obtain ⟨e, h, he⟩ := h
      rw [if_neg hroom]
      exact ⟨e, by change (p c >>= fun r => f r.1 r.2) = _; rw [h]; rfl, he⟩
  exact hbegin.followed fun c' hc' hcount h => ⟨f a, h, hf c' hc' hcount⟩

theorem Meets.of_eq {c' : Cursor} {q : Parser α} (hpq : p c = q c')
    (hcount : c'.operators = c.operators) (h : Meets R q c' rest depth m n) :
    Meets R p c rest depth m n := by
  unfold Meets at h ⊢
  simpa only [hpq, hcount] using h

theorem meets_of_at {c' : Cursor} (hc' : c'.At rest) (hcount : c'.operators = c.operators)
    (h : R (p c) c') : Meets R p c rest depth 0 0 := by
  unfold Meets
  rw [if_pos ⟨Nat.zero_le _, hcount ▸ hc'.operators_le⟩]
  exact ⟨c', hc', hcount, h⟩

theorem Reads.bind_at {R' : Except ParseError (β × Cursor) → Cursor → Prop} {f : α → Parser β}
    (h : Reads p c a mid depth m n)
    (hf : ∀ c', c'.At mid → c'.operators = c.operators + n →
      ∃ c'' : Cursor, c''.At rest ∧ c''.operators = c'.operators ∧ R' (f a c') c'') :
    Meets R' (p >>= f) c rest depth m n := by
  have hbind : Meets R' (p >>= f) c rest depth (max m 0) (n + 0) :=
    h.bind fun c' hc' hcount => by
      obtain ⟨c'', hc'', hcount', hR⟩ := hf c' hc' hcount
      exact meets_of_at hc'' hcount' hR
  rwa [Nat.max_zero, Nat.add_zero] at hbind

theorem Meets.congr (h : Meets R p c rest depth m n) (hm : m = m') (hn : n = n') :
    Meets R p c rest depth m' n' :=
  hm ▸ hn ▸ h

theorem Meets.deeper (h : Meets R p c rest depth m n) :
    Meets R p c rest (depth + 1) (m + 1) n := by
  unfold Meets at h ⊢
  simpa only [Nat.add_le_add_iff_right] using h

theorem meets_tooDeep (h : p c = .error (.malformed c.position .tooDeep)) :
    Meets R p c rest 0 (m + 1) n := by
  unfold Meets
  rw [if_neg (by omega)]
  exact ⟨_, h, trivial⟩

theorem reads_countOperator (hc : c.At rest) : Reads countOperator c () rest depth 0 1 := by
  unfold Reads Meets countOperator
  by_cases h : maxOperators ≤ c.operators
  · rw [if_neg (by omega), if_pos h]
    exact ⟨_, rfl, trivial⟩
  · rw [if_pos (by omega), if_neg h]
    exact ⟨{ c with operators := c.operators + 1 }, ⟨hc.lexemes, by simp only; omega⟩, rfl, rfl⟩

theorem Reads.exists_ok (h : Reads p c a rest depth m n) (hm : m ≤ depth)
    (hn : c.operators + n ≤ maxOperators) : ∃ c', p c = .ok (a, c') := by
  unfold Reads Meets at h
  rw [if_pos ⟨hm, hn⟩] at h
  obtain ⟨c', -, -, h⟩ := h
  exact ⟨c', h⟩

theorem Reads.ok_or_limit (h : Reads p c a rest depth m n) :
    (∃ c', p c = .ok (a, c')) ∨ ∃ limit : ParseError, limit.IsLimit ∧ p c = .error limit := by
  unfold Reads Meets at h
  split at h
  · obtain ⟨c', -, -, h⟩ := h
    exact .inl ⟨c', h⟩
  · obtain ⟨limit, h, hlimit⟩ := h
    exact .inr ⟨limit, hlimit, h⟩

/-- A parser that reads or stops at a limit finds nothing that it does not expect. -/
theorem Reads.ne_unexpected (h : Reads p c a rest depth m n) (d : Cursor) (what : Expected) :
    p c ≠ .error (d.unexpected what) := by
  intro hp
  obtain ⟨c', h⟩ | ⟨limit, hlimit, h⟩ := h.ok_or_limit
  · cases hp.symm.trans h
  · cases hp.symm.trans h
    unfold Cursor.unexpected at hlimit
    split at hlimit <;> exact hlimit

end Parser
end RuleGraph

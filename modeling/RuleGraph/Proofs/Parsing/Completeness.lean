import RuleGraph.Proofs.Parsing.Brackets
import RuleGraph.Proofs.Parsing.Constructs
import RuleGraph.Proofs.Parsing.Soundness
/-!
# Whatever the grammar derives is read

Tokens from which the grammar derives an expression are taken for it by the parser of the level. The
operators that it counts are those of the expression, and it has enough levels of nesting exactly
where there is a derivation that nests no deeper.
-/
namespace RuleGraph
open RuleGraph.Parser Level

section
variable {ts : List Lexeme} {tss : List (List Lexeme)} {m n m' n' : Nat}

theorem commaSeparated_concat (h : tss ≠ []) (ts : List Lexeme) :
    commaSeparated (tss ++ [ts]) = commaSeparated tss ++ .comma :: ts := by
  obtain ⟨first, rest, rfl⟩ := List.exists_cons_of_ne_nil h
  rw [List.cons_append, commaSeparated_cons, commaSeparated_cons]
  simp [afterCommas]

theorem TakenAll.concat {es : List Expr} (hs : TakenAll tss es m n) {e : Expr}
    (h : Level.conditional.Takes ts e m' n') :
    TakenAll (tss ++ [ts]) (es ++ [e]) (max m (m' + 1)) (n + n') := by
  induction hs with
  | nil => simpa using TakenAll.cons h .nil
  | cons h' _ ih => simpa [Nat.max_assoc, Nat.add_assoc] using TakenAll.cons h' ih

theorem TakenEntries.concat {entries : List (String × Expr)} (hs : TakenEntries tss entries m n)
    {t : Lexeme} {key : String} (hkey : t.keyOf? = some key) {e : Expr}
    (h : Level.conditional.Takes ts e m' n') :
    TakenEntries (tss ++ [t :: .colon :: ts]) (entries ++ [(key, e)]) (max m (m' + 1))
      (n + n') := by
  induction hs with
  | nil => simpa using TakenEntries.cons hkey h .nil
  | cons hkey' h' _ ih => simpa [Nat.max_assoc, Nat.add_assoc] using TakenEntries.cons hkey' h' ih

theorem TakenAll.ne_nil {es : List Expr} (hs : TakenAll tss es m n) (h : es ≠ []) : tss ≠ [] := by
  cases hs with
  | nil => contradiction
  | cons => exact List.cons_ne_nil _ _

theorem TakenEntries.ne_nil {entries : List (String × Expr)} (hs : TakenEntries tss entries m n)
    (h : entries ≠ []) : tss ≠ [] := by
  cases hs with
  | nil => contradiction
  | cons => exact List.cons_ne_nil _ _

end

namespace Expr

@[simp] theorem operatorCount_negated (e : Expr) : (negated e).operatorCount = e.operatorCount := by
  unfold negated
  split <;> rfl

@[simp] theorem operatorCount_memberOf (e : Expr) (name : String) :
    (memberOf e name).operatorCount = e.operatorCount := by
  unfold memberOf
  split
  · rfl
  · simp [operatorCount, string]

@[simp] theorem allOperatorCount_concat (es : List Expr) (e : Expr) :
    allOperatorCount (es ++ [e]) = allOperatorCount es + e.operatorCount := by
  induction es with
  | nil => simp [allOperatorCount]
  | cons first es ih => simp [allOperatorCount, ih, Nat.add_assoc]

@[simp] theorem entriesOperatorCount_concat (entries : List (String × Expr))
    (entry : String × Expr) : entriesOperatorCount (entries ++ [entry]) =
      entriesOperatorCount entries + entry.2.operatorCount := by
  induction entries with
  | nil => simp [entriesOperatorCount]
  | cons first entries ih => simp [entriesOperatorCount, ih, Nat.add_assoc]

end Expr

/-- The parser takes the tokens for the phrase if so many levels of nesting are left. What stands
between commas lies one level deeper. -/
def Phrase.TakenWithin (depth : Nat) (ts : List Lexeme) : Phrase → Prop
  | .expression L e => ∃ need ≤ depth, L.Takes ts e need e.operatorCount
  | .items es => es ≠ [] ∧ ∃ tss, ts = commaSeparated tss ∧
      ∃ need ≤ depth + 1, TakenAll tss es need (Expr.allOperatorCount es)
  | .entries es => es ≠ [] ∧ ∃ tss, ts = commaSeparated tss ∧
      ∃ need ≤ depth + 1, TakenEntries tss es need (Expr.entriesOperatorCount es)

theorem Derives.takenWithin {d : Nat} {ts : List Lexeme} {phrase : Phrase}
    (h : Derives d ts phrase) : phrase.TakenWithin d ts := by
  induction h with
  | tighter L _ ih =>
    obtain ⟨m, hm, ih⟩ := ih
    exact ⟨m, hm, ih.of_tighter⟩
  | @atom d t e h =>
    have hcount : e.operatorCount = 0 := by
      cases t <;> cases h <;> rfl
    exact ⟨0, Nat.zero_le _, hcount ▸ takes_atom h⟩
  | name name => exact ⟨0, Nat.zero_le _, takes_identifier name⟩
  | parentheses _ ih =>
    obtain ⟨m, hm, ih⟩ := ih
    exact ⟨m + 1, by omega, takes_parentheses ih⟩
  | interval startIncluded stopIncluded _ _ ihstart ihstop =>
    obtain ⟨m, hm, ihstart⟩ := ihstart
    obtain ⟨m', hm', ihstop⟩ := ihstop
    exact ⟨_, by omega, takes_interval ihstart ihstop startIncluded stopIncluded⟩
  | emptyArray => exact ⟨0, Nat.zero_le _, takes_emptyArray⟩
  | array _ ih =>
    obtain ⟨hes, tss, rfl, m, hm, ih⟩ := ih
    have harray := takes_array ih hes (.inl rfl)
    rw [List.append_nil] at harray
    exact ⟨m, hm, harray⟩
  | arrayComma _ ih =>
    obtain ⟨hes, tss, rfl, m, hm, ih⟩ := ih
    exact ⟨m, hm, takes_array ih hes (.inr rfl)⟩
  | emptyObject => exact ⟨0, Nat.zero_le _, takes_emptyObject⟩
  | object _ ih =>
    obtain ⟨hentries, tss, rfl, m, hm, ih⟩ := ih
    have hobject := takes_object ih hentries (.inl rfl)
    rw [List.append_nil] at hobject
    exact ⟨m, hm, hobject⟩
  | objectComma _ ih =>
    obtain ⟨hentries, tss, rfl, m, hm, ih⟩ := ih
    exact ⟨m, hm, takes_object ih hentries (.inr rfl)⟩
  | emptyCall hname hcount => exact ⟨0, Nat.zero_le _, takes_emptyCall hname hcount⟩
  | call hname hcount _ ih =>
    obtain ⟨hargs, tss, rfl, m, hm, ih⟩ := ih
    exact ⟨m, hm, takes_call hname hcount ih hargs⟩
  | @member d ts e name _ ih =>
    obtain ⟨m, hm, ih⟩ := ih
    exact ⟨m, hm, (Expr.operatorCount_memberOf e name).symm ▸ takes_member ih name⟩
  | index _ _ ihbase ihkey =>
    obtain ⟨m, hm, ihbase⟩ := ihbase
    obtain ⟨m', hm', ihkey⟩ := ihkey
    exact ⟨_, by omega, takes_index ihbase ihkey⟩
  | power _ _ ihbase ihexponent =>
    obtain ⟨m, hm, ihbase⟩ := ihbase
    obtain ⟨m', hm', ihexponent⟩ := ihexponent
    exact ⟨_, by omega, takes_power ihbase ihexponent⟩
  | not ht _ ih =>
    obtain ⟨m, hm, ih⟩ := ih
    exact ⟨m + 1, by omega, takes_not ht ih⟩
  | @negate d ts e _ ih =>
    obtain ⟨m, hm, ih⟩ := ih
    exact ⟨m + 1, by omega, (Expr.operatorCount_negated e).symm ▸ takes_minus ih⟩
  | @binary d tl tm tr left op right hop htm _ _ ihleft ihright =>
    obtain ⟨m, hm, ihleft⟩ := ihleft
    obtain ⟨m', hm', ihright⟩ := ihright
    have htakes := takes_binary hop htm ihleft ihright
    have hcount : (Expr.binary left op right).operatorCount =
        left.operatorCount + 1 + right.operatorCount := by
      rw [Expr.operatorCount, if_neg hop]
    exact ⟨_, by omega, hcount ▸ htakes⟩
  | ternary _ _ _ ihcondition ihyes ihno =>
    obtain ⟨m, hm, ihcondition⟩ := ihcondition
    obtain ⟨my, hmy, ihyes⟩ := ihyes
    obtain ⟨mn, hmn, ihno⟩ := ihno
    exact ⟨_, by omega, takes_ternary ihcondition ihyes ihno⟩
  | item _ ih =>
    obtain ⟨m, hm, ih⟩ := ih
    exact ⟨List.cons_ne_nil _ _, [_], (commaSeparated_cons _ []).trans (List.append_nil _) |>.symm,
      _, by omega, .cons ih .nil⟩
  | moreItems _ _ ihs ih =>
    obtain ⟨hes, tss, rfl, m, hm, ihs⟩ := ihs
    obtain ⟨m', hm', ih⟩ := ih
    exact ⟨by simp, _, (commaSeparated_concat (ihs.ne_nil hes) _).symm, _, by omega,
      (Expr.allOperatorCount_concat _ _).symm ▸ ihs.concat ih⟩
  | entry hkey _ ih =>
    obtain ⟨m, hm, ih⟩ := ih
    exact ⟨List.cons_ne_nil _ _, [_], (commaSeparated_cons _ []).trans (List.append_nil _) |>.symm,
      _, by omega, .cons hkey ih .nil⟩
  | @moreEntries d ts t te es key e _ hkey _ ihs ih =>
    obtain ⟨hentries, tss, rfl, m, hm, ihs⟩ := ihs
    obtain ⟨m', hm', ih⟩ := ih
    exact ⟨by simp, _, (commaSeparated_concat (ihs.ne_nil hentries) _).symm, _, by omega,
      (Expr.entriesOperatorCount_concat es (key, e)).symm ▸ ihs.concat hkey ih⟩

/-- The tokens stand for an expression on a level that nests at most so deep. -/
def Level.SpellsWithin (L : Level) (depth : Nat) (ts : List Lexeme) (e : Expr) : Prop :=
  Derives depth ts (.expression L e)

/-- The tokens stand for an expression on a level, however deeply it nests. -/
def Level.Spells (L : Level) (ts : List Lexeme) (e : Expr) : Prop :=
  ∃ depth, L.SpellsWithin depth ts e

theorem Cursor.exists_at (ts : List Lexeme) : ∃ c : Cursor, c.At ts ∧ c.operators = 0 :=
  ⟨⟨(ts ++ [Lexeme.eof]).map (⟨·, 0⟩), 0⟩, ⟨by simp [Function.comp_def], Nat.zero_le _⟩, rfl⟩

section
variable {L : Level} {ts : List Lexeme} {e : Expr} {need count : Nat}

theorem Level.Takes.reads_all (h : L.Takes ts e need count) {c : Cursor} (hc : c.At ts)
    (depth : Nat) : Reads (L.parser (inner ts.length depth)) c e [] depth need count := by
  rw [← List.append_nil ts] at hc
  exact h.reads hc (endsAt_nil L) (Nat.le_refl _)

theorem Level.Takes.derives (h : L.Takes ts e need count) (hcount : count ≤ maxOperators)
    {depth : Nat} (hneed : need ≤ depth) : L.SpellsWithin depth ts e := by
  obtain ⟨c, hc, hzero⟩ := Cursor.exists_at ts
  have hread := h.reads_all hc depth
  unfold Reads Meets at hread
  rw [if_pos ⟨hneed, by omega⟩] at hread
  obtain ⟨c', hend, -, hread⟩ := hread
  obtain ⟨seg, rest, hts, hrest, hderives⟩ :=
    yields_anyLevel (sound_inner ts.length depth) L hc e c' hread
  have hnil : rest = [] := by
    simpa using hrest.lexemes.symm.trans hend.lexemes
  rw [hnil, List.append_nil] at hts
  exact hts ▸ hderives

theorem Level.Takes.need_le {need' : Nat} (h : L.Takes ts e need count)
    (h' : L.Takes ts e need' count) (hcount : count ≤ maxOperators) : need ≤ need' := by
  obtain ⟨c, hc, hzero⟩ := Cursor.exists_at ts
  -- There is only one reading, and it goes well with `need'` levels.
  obtain ⟨c', hread'⟩ := (h'.reads_all hc need').exists_ok (Nat.le_refl _) (by omega)
  have hread := h.reads_all hc need'
  unfold Reads Meets at hread
  split at hread
  · next hroom => exact hroom.1
  · obtain ⟨limit, hlimit, -⟩ := hread
    cases hread'.symm.trans hlimit

/-- The levels of nesting that the parser needs are those of the flattest derivation. -/
theorem Level.Spells.exists_takes (h : L.Spells ts e) :
    ∃ need, L.Takes ts e need e.operatorCount ∧ (e.operatorCount ≤ maxOperators →
      ∀ depth, need ≤ depth ↔ L.SpellsWithin depth ts e) := by
  obtain ⟨d, h⟩ := h
  obtain ⟨need, -, htakes⟩ := h.takenWithin
  refine ⟨need, htakes, fun hcount depth => ⟨fun hneed => htakes.derives hcount hneed, ?_⟩⟩
  intro hderives
  obtain ⟨need', hneed', htakes'⟩ := Derives.takenWithin hderives
  exact Nat.le_trans (htakes.need_le htakes' hcount) hneed'

end

/-- What stands for an expression on a level does so on all looser ones. -/
theorem Derives.of_rank_le {d : Nat} {ts : List Lexeme} {K L : Level} {e : Expr}
    (h : Derives d ts (.expression L e)) (hle : K.rank ≤ L.rank) :
    Derives d ts (.expression K e) := by
  induction K using Level.downward with
  | hatom => rwa [eq_of_rank_eq (Nat.le_antisymm hle (by cases L <;> decide))]
  | hstep K ih =>
    by_cases heq : K.rank = L.rank
    · rwa [eq_of_rank_eq heq]
    · have := K.rank_tighter_le
      exact .tighter K (ih (by omega))

end RuleGraph

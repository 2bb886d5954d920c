import RuleGraph.Proofs.Parsing.Soundness
/-!
# Open brackets

How many brackets are open at once in what is parsed. The limit of nesting bounds them, apart from
those of intervals whose end is being read: the end of an interval is on the level of the interval.
-/
namespace RuleGraph

/-- What stands behind an open bracket. -/
inductive BracketStage where
  | opened
  | filled
  | ending
  deriving DecidableEq

namespace Brackets
open BracketStage

/-- Something stands behind the innermost bracket. -/
def fill : List BracketStage → List BracketStage
  | opened :: outer => filled :: outer
  | stack => stack

/-- The open brackets behind one more token, the innermost first. -/
def step (stack : List BracketStage) : Lexeme → List BracketStage
  | .openParen | .openBracket | .openBrace => opened :: fill stack
  | .closeParen | .closeBracket | .closeBrace => stack.tail
  | .dots =>
    match stack with
    | [] => []
    | _ :: outer => ending :: outer
  | _ => fill stack

/-- The open brackets behind tokens. -/
def behind (stack : List BracketStage) (ts : List Lexeme) : List BracketStage :=
  ts.foldl step stack

/-- Whether a lexeme is neither a bracket nor the dots of an interval. -/
def IsPlain (t : Lexeme) : Prop :=
  ∀ stack, step stack t = fill stack

variable {stack : List BracketStage} {t : Lexeme} {ts us : List Lexeme} {d d' : Nat}

@[simp] theorem behind_nil : behind stack [] = stack := rfl

@[simp] theorem behind_cons : behind stack (t :: ts) = behind (step stack t) ts := rfl

@[simp] theorem behind_append : behind stack (ts ++ us) = behind (behind stack ts) us :=
  List.foldl_append

@[simp] theorem fill_fill : fill (fill stack) = fill stack := by
  cases stack with
  | nil => rfl
  | cons stage outer => cases stage <;> rfl

/-- At most so many brackets are open that something stands behind, and at most one more. -/
structure Bounded (d : Nat) (stack : List BracketStage) : Prop where
  filled_le : stack.count .filled ≤ d
  counted_le : stack.countP (· ≠ .ending) ≤ d + 1

theorem bounded_nil : Bounded d [] :=
  ⟨Nat.zero_le _, Nat.zero_le _⟩

theorem bounded_opened : Bounded d [.opened] :=
  ⟨Nat.zero_le _, Nat.succ_le_succ (Nat.zero_le _)⟩

theorem Bounded.mono (h : Bounded d stack) (hd : d ≤ d') : Bounded d' stack :=
  ⟨Nat.le_trans h.filled_le hd, Nat.le_trans h.counted_le (Nat.succ_le_succ hd)⟩

theorem Bounded.append_filled (h : Bounded d stack) : Bounded (d + 1) (stack ++ [.filled]) := by
  constructor
  · simpa using h.filled_le
  · simpa using h.counted_le

theorem Bounded.append_ending (h : Bounded d stack) : Bounded d (stack ++ [.ending]) := by
  constructor
  · simpa using h.filled_le
  · simpa using h.counted_le

/-- The tokens close the brackets that they open and no others, and never open too many. -/
structure Within (d : Nat) (ts : List Lexeme) : Prop where
  balanced : ∀ stack, behind stack ts = fill stack
  bounded : ∀ {read}, read <+: ts → read ≠ [] → ∀ stack,
    ∃ inner, behind stack read = inner ++ fill stack ∧ Bounded d inner

/-- The same for what stands between two brackets, together with the bracket in front. -/
structure Inside (d : Nat) (ts : List Lexeme) : Prop where
  balanced : ∀ outer, ∃ stage, behind (.opened :: outer) ts = stage :: outer
  bounded : ∀ {read}, read <+: ts → ∀ outer,
    ∃ inner, behind (.opened :: outer) read = inner ++ outer ∧ Bounded d inner

theorem prefix_append_cases {α : Type} {read ts us : List α} (h : read <+: ts ++ us) :
    read <+: ts ∨ ∃ more, more <+: us ∧ read = ts ++ more := by
  refine (List.prefix_or_prefix_of_prefix h (List.prefix_append ts us)).imp_right ?_
  rintro ⟨more, rfl⟩
  exact ⟨more, (List.prefix_append_right_inj ts).1 h, rfl⟩

theorem Within.mono (h : Within d ts) (hd : d ≤ d') : Within d' ts := by
  refine ⟨h.balanced, fun hread hne stack => ?_⟩
  obtain ⟨inner, hinner, hbounded⟩ := h.bounded hread hne stack
  exact ⟨inner, hinner, hbounded.mono hd⟩

theorem within_token (ht : IsPlain t) : Within d [t] := by
  refine ⟨ht, fun hread hne stack => ?_⟩
  obtain ⟨more, rfl, hmore⟩ := (List.prefix_cons_iff.1 hread).resolve_left hne
  rw [List.prefix_nil.1 hmore]
  exact ⟨[], ht stack, bounded_nil⟩

theorem Within.append (hts : Within d ts) (hus : Within d us) : Within d (ts ++ us) := by
  refine ⟨fun stack => by rw [behind_append, hts.balanced, hus.balanced, fill_fill],
    fun hread hne stack => ?_⟩
  rcases prefix_append_cases hread with hread | ⟨more, hmore, rfl⟩
  · exact hts.bounded hread hne stack
  · rw [behind_append, hts.balanced]
    by_cases hnil : more = []
    · subst hnil
      exact ⟨[], rfl, bounded_nil⟩
    · simpa using hus.bounded hmore hnil (fill stack)

theorem Within.cons (ht : IsPlain t) (hts : Within d ts) : Within d (t :: ts) :=
  (within_token ht).append hts

theorem inside_nil : Inside d [] := by
  refine ⟨fun outer => ⟨.opened, rfl⟩, fun hread outer => ?_⟩
  rw [List.prefix_nil.1 hread]
  exact ⟨[.opened], rfl, bounded_opened⟩

theorem Within.inside (h : Within d ts) : Inside (d + 1) ts := by
  refine ⟨fun outer => ⟨.filled, h.balanced _⟩, fun {read} hread outer => ?_⟩
  by_cases hne : read = []
  · subst hne
    exact ⟨[.opened], rfl, bounded_opened⟩
  · obtain ⟨inner, hinner, hbounded⟩ := h.bounded hread hne (.opened :: outer)
    exact ⟨inner ++ [.filled], by rw [hinner]; simp [fill], hbounded.append_filled⟩

theorem Within.inside_interval (hts : Within d ts) (hus : Within (d + 1) us) :
    Inside (d + 1) (ts ++ .dots :: us) := by
  have hdots (outer : List BracketStage) :
      behind (.opened :: outer) (ts ++ [.dots]) = .ending :: outer := by
    rw [behind_append, hts.balanced]
    rfl
  have hsplit : ts ++ .dots :: us = (ts ++ [.dots]) ++ us := by simp
  constructor
  · intro outer
    refine ⟨.ending, ?_⟩
    rw [hsplit, behind_append, hdots, hus.balanced]
    rfl
  · intro read hread outer
    rw [hsplit] at hread
    rcases prefix_append_cases hread with hread | ⟨more, hmore, rfl⟩
    · rcases List.prefix_concat_iff.1 hread with rfl | hread
      · exact ⟨[.ending], hdots outer, bounded_nil.append_ending⟩
      · exact hts.inside.bounded hread outer
    · rw [behind_append, hdots]
      by_cases hnil : more = []
      · subst hnil
        exact ⟨[.ending], rfl, bounded_nil.append_ending⟩
      · obtain ⟨inner, hinner, hbounded⟩ := hus.bounded hmore hnil (.ending :: outer)
        exact ⟨inner ++ [.ending], by rw [hinner]; simp [fill], hbounded.append_ending⟩

def Opens (t : Lexeme) : Prop :=
  t = .openParen ∨ t = .openBracket ∨ t = .openBrace

def Closes (t : Lexeme) : Prop :=
  t = .closeParen ∨ t = .closeBracket ∨ t = .closeBrace

theorem Opens.step (ht : Opens t) : step stack t = .opened :: fill stack := by
  rcases ht with rfl | rfl | rfl <;> rfl

theorem Closes.step (ht : Closes t) : step stack t = stack.tail := by
  rcases ht with rfl | rfl | rfl <;> rfl

theorem Inside.within {u : Lexeme} (h : Inside d ts) (ht : Opens t) (hu : Closes u) :
    Within d (t :: ts ++ [u]) := by
  have hwhole (stack : List BracketStage) : behind stack (t :: ts ++ [u]) = fill stack := by
    obtain ⟨stage, hstage⟩ := h.balanced (fill stack)
    simp only [behind_append, behind_cons, behind_nil, ht.step, hstage, hu.step, List.tail_cons]
  refine ⟨hwhole, fun {read} hread hne stack => ?_⟩
  rcases List.prefix_concat_iff.1 hread with rfl | hread
  · exact ⟨[], hwhole stack, bounded_nil⟩
  · obtain ⟨more, rfl, hmore⟩ := (List.prefix_cons_iff.1 hread).resolve_left hne
    rw [behind_cons, ht.step]
    exact h.bounded hmore (fill stack)

theorem within_tokens (hts : ∀ t ∈ ts, IsPlain t) (hne : ts ≠ []) : Within d ts := by
  induction ts with
  | nil => exact absurd rfl hne
  | cons t ts ih =>
    rw [List.forall_mem_cons] at hts
    by_cases hnil : ts = []
    · subst hnil
      exact within_token hts.1
    · exact (within_token hts.1).append (ih hts.2 hnil)

theorem behind_eq_nil (hts : ∀ t ∈ ts, IsPlain t) : behind [] ts = [] := by
  induction ts with
  | nil => rfl
  | cons t ts ih =>
    rw [List.forall_mem_cons] at hts
    rw [behind_cons, hts.1]
    exact ih hts.2

theorem isPlain_of_atom? {e : Expr} (h : Parser.atom? t = some e) : IsPlain t := by
  cases t <;> first | (intro _; rfl) | cases h

theorem isPlain_of_keyOf? {key : String} (h : t.keyOf? = some key) : IsPlain t := by
  cases t <;> first | (intro _; rfl) | cases h

theorem within_spelling {op : Operator} (h : ts ∈ op.spellings) : Within d ts := by
  cases op <;>
    simp only [Operator.spellings, Operator.lexemes, List.mem_cons, List.not_mem_nil, or_false]
      at h <;>
    first
    | (subst h; exact within_tokens (by simp [IsPlain, step]) (List.cons_ne_nil _ _))
    | (rcases h with rfl | rfl <;>
        exact within_tokens (by simp [IsPlain, step]) (List.cons_ne_nil _ _))

end Brackets

open Brackets

/-- What stands in the grammar closes its brackets and opens no more than the levels of nesting. -/
theorem Derives.within {d : Nat} {ts : List Lexeme} {phrase : Phrase} (h : Derives d ts phrase) :
    Within d ts := by
  induction h with
  | tighter L h ih => exact ih
  | atom h => exact within_token (isPlain_of_atom? h)
  | name name => exact within_token fun _ => rfl
  | parentheses h ih => exact ih.inside.within (.inl rfl) (.inl rfl)
  | @interval d ts tt start stop startIncluded stopIncluded hstart hstop ihstart ihstop =>
    have hopens : Opens (if startIncluded then .openBracket else .openParen) := by
      cases startIncluded <;> simp [Opens]
    have hcloses : Closes (if stopIncluded then .closeBracket else .closeParen) := by
      cases stopIncluded <;> simp [Closes]
    exact (ihstart.inside_interval ihstop).within hopens hcloses
  | emptyArray => exact inside_nil.within (.inr (.inl rfl)) (.inr (.inl rfl))
  | array h ih => exact ih.inside.within (.inr (.inl rfl)) (.inr (.inl rfl))
  | arrayComma h ih =>
    exact (ih.append (within_token fun _ => rfl)).inside.within (.inr (.inl rfl)) (.inr (.inl rfl))
  | emptyObject => exact inside_nil.within (.inr (.inr rfl)) (.inr (.inr rfl))
  | object h ih => exact ih.inside.within (.inr (.inr rfl)) (.inr (.inr rfl))
  | objectComma h ih =>
    exact (ih.append (within_token fun _ => rfl)).inside.within (.inr (.inr rfl)) (.inr (.inr rfl))
  | emptyCall hname hcount =>
    exact .cons (fun _ => rfl) (inside_nil.within (.inl rfl) (.inl rfl))
  | call hname hcount h ih => exact .cons (fun _ => rfl) (ih.inside.within (.inl rfl) (.inl rfl))
  | member name h ih =>
    exact ih.append (within_tokens (by simp [IsPlain, step]) nofun)
  | index hbase hkey ihbase ihkey =>
    exact ihbase.append (ihkey.inside.within (.inr (.inl rfl)) (.inr (.inl rfl)))
  | power hbase hexponent ihbase ihexponent =>
    exact ihbase.append (.cons (fun _ => rfl) (ihexponent.mono (Nat.le_succ _)))
  | not ht h ih =>
    exact .cons (by rcases ht with rfl | rfl <;> exact fun _ => rfl) (ih.mono (Nat.le_succ _))
  | negate h ih => exact .cons (fun _ => rfl) (ih.mono (Nat.le_succ _))
  | binary hop htm hleft hright ihleft ihright =>
    exact ihleft.append ((within_spelling htm).append ihright)
  | ternary hcondition hyes hno ihcondition ihyes ihno =>
    have hbranches := (ihyes.mono (Nat.le_succ _)).append
      (.cons (t := .colon) (fun _ => rfl) (ihno.mono (Nat.le_succ _)))
    exact ihcondition.append (.cons (fun _ => rfl) hbranches)
  | item h ih => exact ih
  | moreItems hs h ihs ih => exact ihs.append (.cons (fun _ => rfl) ih)
  | entry hkey h ih => exact .cons (isPlain_of_keyOf? hkey) (.cons (fun _ => rfl) ih)
  | moreEntries hs hkey h ihs ih =>
    have hentry := Within.cons (isPlain_of_keyOf? hkey) (.cons (t := .colon) (fun _ => rfl) ih)
    exact ihs.append (.cons (fun _ => rfl) hentry)

theorem DerivesComparisons.within {ts : List Lexeme} {e : Expr} (h : DerivesComparisons ts e) :
    Within maxNesting ts := by
  induction h with
  | @comparison t ts op e ht h =>
    have hop : [t] ∈ op.spellings := by
      cases op <;> simp_all [Operator.isComparison, Operator.spellings]
    exact (within_spelling hop).append h.within
  | connected hop htm hleft hright ihleft ihright =>
    exact ihleft.append ((within_spelling htm).append ihright)

theorem DerivesCell.within {ts : List Lexeme} {e : Expr} (h : DerivesCell ts e) :
    Within maxNesting ts := by
  induction h with
  | comparisons h => exact h.within
  | @membership ts op e hop h =>
    have htm : op.lexemes ∈ op.spellings := by
      cases op <;> simp_all [Operator.isMembership, Operator.spellings]
    exact (within_spelling htm).append h.within
  | expression hd h => exact h.within.mono (by omega)
  | alternatives hleft hright ihleft ihright => exact ihleft.append (.cons (fun _ => rfl) ihright)

namespace Brackets

theorem Within.bounded_behind {d : Nat} {ts read : List Lexeme} (h : Within d ts)
    (hread : read <+: ts ++ [.eof]) : Bounded d (behind [] read) := by
  by_cases hne : read = []
  · subst hne
    exact bounded_nil
  · have hend : Within d (ts ++ [.eof]) := h.append (within_token fun _ => rfl)
    obtain ⟨inner, hinner, hbounded⟩ := hend.bounded hread hne []
    rw [hinner]
    simpa [fill] using hbounded

theorem Within.not_closes {d d' : Nat} {ts rest : List Lexeme} {t : Lexeme} (h : Within d ts)
    (h' : Within d' (ts ++ t :: rest)) : ¬ Closes t := by
  intro ht
  have hread : ts ++ [t] <+: ts ++ t :: rest := ⟨rest, by simp⟩
  obtain ⟨inner, hinner, -⟩ := h'.bounded hread (by simp) [.filled]
  rw [behind_append, h.balanced, behind_cons, ht.step] at hinner
  simp [fill] at hinner

end Brackets
end RuleGraph

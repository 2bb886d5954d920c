import RuleGraph.Proofs.Parsing.Continuation
import Mathlib.Algebra.GroupWithZero.Nat
import Mathlib.Data.List.Forall2
/-!
# Alternatives of a cell

Texts that are each read as one item of a cell are read as alternatives if commas are put between
them. Nothing else can go wrong than that their operators and the commas become too many.
-/
namespace RuleGraph
open Text

theorem Text.inRanges_eq_false {ranges others : List (Nat × Nat)}
    (hapart : ∀ r ∈ ranges, ∀ s ∈ others, r.2 < s.1 ∨ s.2 < r.1) {c : Char}
    (h : inRanges ranges c) : inRanges others c = false := by
  unfold inRanges at h ⊢
  obtain ⟨r, hr, hc⟩ := List.any_eq_true.1 h
  rw [List.any_eq_false]
  intro s hs
  have hdisjoint := hapart r hr s hs
  simp only [Bool.and_eq_true, decide_eq_true_eq] at hc ⊢
  omega

/-- `core` is a text without the blanks at its ends. -/
structure Text.IsCore (cs core : List Char) : Prop where
  around : ∃ before after, cs = before ++ (core ++ after) ∧ (∀ c ∈ before, isBlank c) ∧
    ∀ c ∈ after, isBlank c
  first : ∃ c rest, core = c :: rest ∧ isBlank c = false
  last : ∃ rest c, core = rest ++ [c] ∧ isBlank c = false

namespace Text.IsCore
variable {cs core : List Char}

theorem trimChars_eq (h : IsCore cs core) : trimChars cs = core := by
  obtain ⟨before, after, rfl, hbefore, hafter⟩ := h.around
  obtain ⟨c, rest, hfirst, hc⟩ := h.first
  obtain ⟨rest', d, hlast, hd⟩ := h.last
  have hfront : (core ++ after).dropWhile isBlank = core ++ after := by
    rw [hfirst, List.cons_append, List.dropWhile_cons_of_neg (by simp [hc])]
  have hback : core.reverse.dropWhile isBlank = core.reverse := by
    rw [hlast, List.reverse_append, List.reverse_singleton, List.singleton_append,
      List.dropWhile_cons_of_neg (by simp [hd])]
  have hreversed : ∀ c ∈ after.reverse, isBlank c := fun c hc => hafter c (List.mem_reverse.1 hc)
  rw [trimChars, List.dropWhile_append_of_pos hbefore, hfront, List.reverse_append,
    List.dropWhile_append_of_pos hreversed, hback, List.reverse_reverse]

end Text.IsCore

theorem Text.exists_of_dropWhile {p : Char → Bool} {cs : List Char} (h : cs.dropWhile p ≠ []) :
    ∃ before c rest, cs = before ++ c :: rest ∧ cs.dropWhile p = c :: rest ∧
      (∀ b ∈ before, p b) ∧ p c = false := by
  cases hdrop : cs.dropWhile p with
  | nil => exact absurd hdrop h
  | cons c rest =>
    have hhead := List.head?_dropWhile_not p cs
    rw [hdrop] at hhead
    refine ⟨cs.takeWhile p, c, rest, ?_, rfl, ?_, hhead⟩
    · rw [← hdrop, List.takeWhile_append_dropWhile]
    · exact List.all_eq_true.1 List.all_takeWhile

theorem Text.isCore_trimChars {cs : List Char} (h : trimChars cs ≠ []) :
    IsCore cs (trimChars cs) := by
  have hback : (cs.dropWhile isBlank).reverse.dropWhile isBlank ≠ [] :=
    fun hnil => h (by rw [trimChars, hnil]; rfl)
  have hfront : cs.dropWhile isBlank ≠ [] := fun hnil => hback (by rw [hnil]; rfl)
  obtain ⟨before, c, rest, hcs, hdrop, hbefore, hc⟩ := exists_of_dropWhile hfront
  obtain ⟨after, d, rest', hreverse, hdrop', hafter, hd⟩ := exists_of_dropWhile hback
  have htrim : trimChars cs = rest'.reverse ++ [d] := by
    rw [trimChars, hdrop', List.reverse_cons]
  have hrest : c :: rest = trimChars cs ++ after.reverse := by
    rw [← hdrop, ← List.reverse_reverse (cs.dropWhile isBlank), hreverse, htrim]
    simp
  refine ⟨⟨before, after.reverse, hcs.trans (by rw [hrest]), hbefore, ?_⟩, ?_, _, d, htrim, hd⟩
  · exact fun c hc => hafter c (List.mem_reverse.1 hc)
  · obtain ⟨c', rest'', hcore⟩ := List.exists_cons_of_ne_nil h
    rw [hcore, List.cons_append] at hrest
    obtain ⟨rfl, -⟩ := List.cons.inj hrest
    exact ⟨c, rest'', hcore, hc⟩

namespace Lexer
variable {c : Char} {cs core rest : List Char}

theorem isNameChar_of_isBlank (h : isBlank c) : isNameChar c = false := by
  have hletter : inRanges letterRanges c = false := inRanges_eq_false (by decide +kernel) h
  have hnumeral : inRanges numeralRanges c = false := inRanges_eq_false (by decide +kernel) h
  have hword : inRanges [(48, 57), (65, 90), (95, 95), (97, 122)] c = false :=
    inRanges_eq_false (by decide) h
  have hascii : c.isAlphanum = false ∧ c ≠ '_' := by
    constructor
    · simp only [inRanges, List.any_cons, List.any_nil, Bool.or_eq_false_iff,
        Bool.and_eq_false_iff, decide_eq_false_iff_not] at hword
      delta Char.isAlphanum Char.isAlpha Char.isUpper Char.isLower Char.isDigit
      simp [UInt32.le_iff_toNat_le] at hword ⊢
      omega
    · rintro rfl
      revert hword
      decide
  simp [isNameChar, isLetterOrNumeral, hletter, hnumeral, hascii]

theorem isBlank_of_isNameChar (h : isNameChar c) : isBlank c = false := by
  by_contra hblank
  rw [Bool.not_eq_false] at hblank
  rw [isNameChar_of_isBlank hblank] at h
  cases h

theorem endsTokens_of_isBlank (h : isBlank c) : EndsTokens (c :: rest) := by
  refine endsTokens_cons (isNameChar_of_isBlank h) fun hmem => ?_
  simp only [continuing, List.mem_cons, List.not_mem_nil, or_false] at hmem
  rcases hmem with rfl | rfl | rfl | rfl | rfl | rfl | rfl <;> revert h <;> decide

/-- Blanks between tokens make no difference to them. -/
theorem LexedAs.blanks {blanks : List Char} (hblanks : ∀ c ∈ blanks, isBlank c)
    {lexemes : List Lexeme} (h : LexedAs cs lexemes) : LexedAs (blanks ++ cs) lexemes := by
  induction blanks with
  | nil => exact h
  | cons c blanks ih =>
    obtain ⟨hc, hblanks⟩ := List.forall_mem_cons.1 hblanks
    exact (ih hblanks).blank hc

theorem endsTokens_blanks {blanks : List Char} (hblanks : ∀ c ∈ blanks, isBlank c)
    (h : EndsTokens rest) : EndsTokens (blanks ++ rest) := by
  cases blanks with
  | nil => exact h
  | cons c blanks => exact endsTokens_of_isBlank (hblanks c List.mem_cons_self)

theorem LexedAs.comma {others : List Lexeme} (h : LexedAs rest others) :
    EndsTokens (',' :: rest) ∧ LexedAs (',' :: rest) (.comma :: others) := by
  refine ⟨endsTokens_cons (by decide +kernel) (by decide), h.single (by decide) ?_⟩
  exact .symbol (by decide) (by decide) (by decide +kernel) rfl

theorem exists_isCore_comma {cs' core' : List Char} {lexemes others : List Lexeme}
    (h : IsCore cs core) (hlexed : LexedAs core lexemes) (h' : IsCore cs' core')
    (hlexed' : LexedAs core' others) : ∃ joined, IsCore (cs ++ ',' :: cs') joined ∧
      ',' ∈ joined ∧ LexedAs joined (lexemes ++ .comma :: others) := by
  obtain ⟨before, after, rfl, hbefore, hafter⟩ := h.around
  obtain ⟨before', after', rfl, hbefore', hafter'⟩ := h'.around
  obtain ⟨hends, hcomma⟩ := (LexedAs.blanks hbefore' hlexed').comma
  refine ⟨core ++ (after ++ ',' :: (before' ++ core')), ⟨?_, ?_, ?_⟩, by simp, ?_⟩
  · exact ⟨before, after', by simp, hbefore, hafter'⟩
  · obtain ⟨c, rest, rfl, hc⟩ := h.first
    exact ⟨c, _, rfl, hc⟩
  · obtain ⟨rest, c, rfl, hc⟩ := h'.last
    exact ⟨core ++ (after ++ ',' :: (before' ++ rest)), c, by simp, hc⟩
  · exact hlexed.append (endsTokens_blanks hafter hends) (.blanks hafter hcomma)

end Lexer

namespace Parser
variable {α β : Type} {c : Cursor} {mid rest ts : List Lexeme} {m n : Nat}

/-- A parser reads up to `rest` and makes `a` of it if `count` more operators are within the limit;
otherwise it finds that they are too many. -/
def Tallies (p : Parser α) (c : Cursor) (a : α) (rest : List Lexeme) (count : Nat) : Prop :=
  if c.operators + count ≤ maxOperators then
    ∃ d : Cursor, p c = .ok (a, d) ∧ d.At rest ∧ d.operators = c.operators + count
  else ∃ position, p c = .error (.malformed position .tooManyOperators)

theorem Tallies.bind {p : Parser α} {f : α → Parser β} {a : α} {b : β}
    (h : Tallies p c a mid m)
    (hf : ∀ d : Cursor, d.At mid → d.operators = c.operators + m → Tallies (f a) d b rest n) :
    Tallies (p >>= f) c b rest (m + n) := by
  have hbind : (p >>= f) c = p c >>= fun r => f r.1 r.2 := rfl
  unfold Tallies at h
  rw [Tallies, hbind]
  split at h
  · next hroom =>
    obtain ⟨d, hp, hd, hcount⟩ := h
    have hf := hf d hd hcount
    rw [Tallies, hcount, Nat.add_assoc] at hf
    rw [hp, ok_bind]
    exact hf
  · next hfull =>
    obtain ⟨position, hp⟩ := h
    rw [if_neg (by omega), hp, error_bind]
    exact ⟨position, rfl⟩

theorem tallies_pure (hc : c.At rest) (a : α) : Tallies (pure a : Parser α) c a rest 0 := by
  rw [Tallies, Nat.add_zero, if_pos hc.operators_le]
  exact ⟨c, rfl, hc, rfl⟩

theorem Tallies.of_eq {p q : Parser α} {d : Cursor} {a : α} (hpq : p c = q d)
    (hcount : d.operators = c.operators) (h : Tallies q d a rest n) : Tallies p c a rest n := by
  unfold Tallies at h ⊢
  rwa [hpq, ← hcount]

theorem tallies_countOperator (hc : c.At rest) : Tallies countOperator c () rest 1 := by
  unfold Tallies countOperator
  by_cases h : maxOperators ≤ c.operators
  · rw [if_neg (by omega), if_pos h]
    exact ⟨_, rfl⟩
  · rw [if_pos (by omega), if_neg h]
    exact ⟨_, rfl, ⟨hc.lexemes, by simp only; omega⟩, rfl⟩

theorem Tallies.toEnd {p : Parser α} {a : α} (h : Tallies p c a [] n) :
    Tallies (do
      let a ← p
      expectEnd
      return a : Parser α) c a [] n := by
  refine h.bind fun d hd _ => (tallies_pure hd a).of_eq ?_ rfl
  rw [expectEnd, bind_assoc, peek_bind, hd.head_eq]
  rfl

end Parser

/-- A text that is read as one item of a cell. -/
structure CellItem where
  text : String
  lexemes : List Lexeme
  test : Expr
  /-- The number of operators that are counted in it. -/
  operators : Nat
  nonempty : trim text ≠ ""
  ne_hyphen : trim text ≠ "-"
  lexed : Lexer.LexedAs (trim text).toList lexemes
  read : ∃ c d : Cursor, c.At lexemes ∧ c.operators = 0 ∧
    Parser.cellItem (Parser.inner c.tokens.length maxNesting) c = .ok (test, d) ∧
    d.head = .eof ∧ d.operators = operators

namespace CellItem
open RuleGraph.Parser

theorem tallies (item : CellItem) {rest : List Lexeme} (hrest : EndsText rest) {c : Cursor}
    (hc : c.At (item.lexemes ++ rest)) {fuel : Nat} (hfuel : c.tokens.length ≤ fuel) :
    Tallies (cellItem (inner fuel maxNesting)) c item.test rest item.operators := by
  obtain ⟨c₀, d₀, hc₀, hzero, hread, hend, hcount⟩ := item.read
  have hstart : c₀.Alongside rest c :=
    ⟨⟨item.lexemes, item.lexed.eof_notMem, hc₀, hc⟩, hzero ▸ Nat.zero_le _⟩
  have hlength := hstart.length
  have hinner := continues_inner hrest (show c₀.tokens.length ≤ fuel by omega) maxNesting
  obtain ⟨-, -, d, hd, hcases⟩ := continues_cellItem hinner hrest hstart _ _ hread
  have hmax := hd.operators_le_max
  unfold Tallies
  rcases hcases with ⟨hread', hcount'⟩ | ⟨hmany, position, hread'⟩
  · rw [if_pos (by omega)]
    exact ⟨d, hread', (hd.head_of_eof hend).1, by omega⟩
  · rw [if_neg (by omega)]
    exact ⟨position, hread'⟩

/-- The lexemes of the items behind the first one. -/
def behind (items : List CellItem) : List Lexeme :=
  items.flatMap fun item => .comma :: item.lexemes

/-- The number of operators that alternatives count, each comma being one of them. -/
def count : List CellItem → Nat
  | [] => 0
  | item :: items => item.operators + 1 + count items

/-- The alternatives as one test. -/
def anyOf (first : Expr) (others : List Expr) : Expr :=
  others.foldl (fun left right => .binary left .or right) first

theorem endsText_behind (items : List CellItem) : EndsText (behind items) := by
  cases items with
  | nil => exact .inl rfl
  | cons item items => exact .inr rfl

theorem tallies_chain (items : List CellItem) {c : Cursor} (hc : c.At (behind items)) {fuel : Nat}
    (hfuel : c.tokens.length ≤ fuel) {limit : Nat} (hlimit : maxOperators < limit + c.operators)
    (e : Expr) : Tallies (chain commaChoice (cellItem (inner fuel maxNesting)) limit e) c
      (anyOf e (items.map CellItem.test)) [] (count items) := by
  induction items generalizing c e limit with
  | nil =>
    have hnone : commaChoice c = none := by
      rw [commaChoice, hc.head_eq]
      rfl
    refine (tallies_pure hc e).of_eq ?_ rfl
    cases limit with
    | zero => rfl
    | succ limit => rw [chain, get_bind, hnone]
  | cons item items ih =>
    have hmax := hc.operators_le
    obtain ⟨limit, rfl⟩ := Nat.exists_eq_succ_of_ne_zero (show limit ≠ 0 by omega)
    have hbehind : c.At (.comma :: (item.lexemes ++ behind items)) := hc
    have hlength := hbehind.length
    rw [List.length_cons, List.length_append] at hlength
    have hcount : count (item :: items) = 1 + (item.operators + count items) := by
      rw [count]
      omega
    have hrest : Tallies (countOperator >>= fun _ =>
        cellItem (inner fuel maxNesting) >>= fun right =>
          chain commaChoice (cellItem (inner fuel maxNesting)) limit (.binary e .or right))
        c.next (anyOf (.binary e .or item.test) (items.map CellItem.test)) []
        (1 + (item.operators + count items)) := by
      refine (tallies_countOperator hbehind.next).bind fun d hd hoperators => ?_
      have hlength' := hd.length
      rw [List.length_append] at hlength'
      rw [Cursor.next_operators] at hoperators
      have hitem := item.tallies (endsText_behind items) hd (show d.tokens.length ≤ fuel by omega)
      refine hitem.bind fun d' hd' hoperators' => ?_
      have hlength'' := hd'.length
      exact ih hd' (by omega) (by omega) (.binary e .or item.test)
    rw [hcount]
    refine hrest.of_eq ?_ (Cursor.next_operators c)
    have hcomma : commaChoice c = some (.or, false) := by
      rw [commaChoice, hbehind.head]
    rw [chain, get_bind, hcomma]
    rfl

theorem tallies_level (item : CellItem) (items : List CellItem) {c : Cursor}
    (hc : c.At (item.lexemes ++ behind items)) :
    Tallies (level commaChoice (cellItem (inner c.tokens.length maxNesting))) c
      (anyOf item.test (items.map CellItem.test)) [] (item.operators + count items) := by
  refine (item.tallies (endsText_behind items) hc (Nat.le_refl _)).bind fun d hd _ => ?_
  have hlength := hc.length
  have hlength' := hd.length
  rw [List.length_append] at hlength
  exact tallies_chain items hd (by omega) (by omega) item.test

theorem exists_isCore (item : CellItem) (items : List CellItem) : ∃ core,
    IsCore (",".intercalate ((item :: items).map text)).toList core ∧ core ≠ ['-'] ∧
      Lexer.LexedAs core (item.lexemes ++ behind items) := by
  have hcore (item : CellItem) : IsCore item.text.toList (trim item.text).toList := by
    have hne : trimChars item.text.toList ≠ [] := fun hnil => item.nonempty (by rw [trim, hnil])
    rw [trim, String.toList_ofList]
    exact isCore_trimChars hne
  rw [String.toList_intercalate]
  induction items generalizing item with
  | nil =>
    refine ⟨(trim item.text).toList, ?_, ?_, ?_⟩
    · simpa using hcore item
    · exact fun h => item.ne_hyphen (String.toList_inj.1 h)
    · rw [behind, List.flatMap_nil, List.append_nil]
      exact item.lexed
  | cons next items ih =>
    obtain ⟨core, hrest, -, hlexed⟩ := ih next
    obtain ⟨joined, hjoined, hcomma, hlexed⟩ :=
      Lexer.exists_isCore_comma (hcore item) item.lexed hrest hlexed
    refine ⟨joined, ?_, ?_, hlexed⟩
    · simpa using hjoined
    · rintro rfl
      revert hcomma
      decide

end CellItem

theorem Expr.parseCell_of_tokens {source : String} (hempty : trim source ≠ "")
    (hhyphen : trim source ≠ "-") {tokens : List Token}
    (htokens : Lexer.tokens (trim source) = .ok tokens) :
    Expr.parseCell source = (Parser.wholeCell ⟨tokens, 0⟩).map Prod.fst := by
  unfold Expr.parseCell
  dsimp only
  rw [if_neg (by simp [hempty, hhyphen]), htokens, ok_bind]
  cases Parser.wholeCell ⟨tokens, 0⟩ <;> rfl

/-- Items with commas between them are alternatives. -/
theorem CellItem.parseCell_alternatives (item : CellItem) (items : List CellItem) :
    let parsed := Expr.parseCell (",".intercalate ((item :: items).map text))
    if item.operators + count items ≤ maxOperators then
      parsed = .ok (anyOf item.test (items.map CellItem.test))
    else ∃ position, parsed = .error (.malformed position .tooManyOperators) := by
  obtain ⟨core, hcore, hhyphen, hlexed⟩ := exists_isCore item items
  have htrim : trim (",".intercalate ((item :: items).map text)) = String.ofList core := by
    rw [trim, hcore.trimChars_eq]
  obtain ⟨tokens, htokens, hlexemes⟩ := Lexer.tokens_of_lexedAs hlexed
  have hempty : String.ofList core ≠ "" := by
    obtain ⟨c, rest, rfl, -⟩ := hcore.first
    exact fun h => by cases String.ofList_inj.1 h
  have hhyphen : String.ofList core ≠ "-" := fun h => hhyphen (String.ofList_inj.1 h)
  have hparse := Expr.parseCell_of_tokens (htrim ▸ hempty) (htrim ▸ hhyphen) (htrim ▸ htokens)
  have hstart : Cursor.At ⟨tokens, 0⟩ (item.lexemes ++ behind items) := ⟨hlexemes, Nat.zero_le _⟩
  have hread : Parser.Tallies Parser.wholeCell ⟨tokens, 0⟩ _ [] _ :=
    (tallies_level item items hstart).toEnd.of_eq (by rw [Parser.wholeCell, Parser.left_bind]) rfl
  rw [Parser.Tallies, Nat.zero_add] at hread
  dsimp only
  rw [hparse]
  split at hread
  · next hroom =>
    obtain ⟨d, hread, -, -⟩ := hread
    rw [if_pos hroom, hread]
    rfl
  · next hfull =>
    obtain ⟨position, hread⟩ := hread
    rw [if_neg hfull, hread]
    exact ⟨position, rfl⟩

namespace Expr

def readsOneItem (text : String) : Bool :=
  match Lexer.tokens (trim text) with
  | .ok tokens =>
    match Parser.cellItem (Parser.inner tokens.length maxNesting) ⟨tokens, 0⟩ with
    | .ok (_, c) => (Parser.commaChoice c).isNone
    | .error _ => false
  | .error _ => false

/-- The number of operators that are counted where the text is read as one item. -/
def itemOperators (text : String) : Nat :=
  match Lexer.tokens (trim text) with
  | .ok tokens =>
    match Parser.cellItem (Parser.inner tokens.length maxNesting) ⟨tokens, 0⟩ with
    | .ok (_, c) => c.operators
    | .error _ => 0
  | .error _ => 0

/-- The text of a cell, which is neither empty nor a hyphen, is read as one item. -/
def IsSingleItem (text : String) : Prop :=
  trim text ≠ "" ∧ trim text ≠ "-" ∧ readsOneItem text

instance : DecidablePred IsSingleItem :=
  fun _ => inferInstanceAs (Decidable (_ ∧ _ ∧ _))

theorem exists_of_readsOneItem {text : String} (h : readsOneItem text) :
    ∃ tokens e c, Lexer.tokens (trim text) = .ok tokens ∧
      Parser.cellItem (Parser.inner tokens.length maxNesting) ⟨tokens, 0⟩ = .ok (e, c) ∧
      Parser.commaChoice c = none := by
  unfold readsOneItem at h
  split at h
  · next tokens htokens =>
    split at h
    · next e c hread => exact ⟨tokens, e, c, htokens, hread, Option.isNone_iff_eq_none.1 h⟩
    · cases h
  · cases h

theorem IsSingleItem.exists_item {text : String} {e : Expr} (h : IsSingleItem text)
    (hparse : Expr.parseCell text = .ok e) :
    ∃ item : CellItem, item.text = text ∧ item.test = e ∧ item.operators = itemOperators text := by
  obtain ⟨hempty, hhyphen, hone⟩ := h
  obtain ⟨tokens, e', c, htokens, hread, hcomma⟩ := exists_of_readsOneItem hone
  rw [parseCell_of_tokens hempty hhyphen htokens] at hparse
  obtain ⟨⟨_, d⟩, hwhole, rfl⟩ := map_eq_ok.1 hparse
  rw [Parser.wholeCell, Parser.left_bind] at hwhole
  obtain ⟨hlevel, hend⟩ := Parser.toEnd_eq_ok_iff.1 hwhole
  have hfirst : Parser.level Parser.commaChoice
      (Parser.cellItem (Parser.inner tokens.length maxNesting)) ⟨tokens, 0⟩ = .ok (e', c) := by
    change (Parser.cellItem _ _ >>= fun r => Parser.chain _ _ (maxOperators + 1) r.1 r.2) = _
    rw [hread, ok_bind, Parser.chain, Parser.get_bind, hcomma]
    rfl
  obtain ⟨rfl, rfl⟩ := Prod.mk.inj (Except.ok.inj (hlevel.symm.trans hfirst))
  obtain ⟨ts, hts, heq⟩ := Lexer.tokens_eq_ok_iff.1 htokens
  have hstart : Cursor.At ⟨tokens, 0⟩ (ts.map Token.lexeme) :=
    ⟨by rw [heq, List.map_append]; rfl, Nat.zero_le _⟩
  let item : CellItem :=
    { text
      lexemes := ts.map Token.lexeme
      test := _
      operators := d.operators
      nonempty := hempty
      ne_hyphen := hhyphen
      lexed := hts.lexedAs
      read := ⟨⟨tokens, 0⟩, d, hstart, rfl, hread, hend, rfl⟩ }
  have hoperators : itemOperators text = d.operators := by
    rw [itemOperators, htokens]
    dsimp only
    rw [hread]
  exact ⟨item, rfl, rfl, hoperators.symm⟩

theorem exists_items {texts : List String} {es : List Expr}
    (hparse : List.Forall₂ (fun t e => Expr.parseCell t = .ok e) texts es)
    (hsingle : ∀ t ∈ texts, IsSingleItem t) :
    ∃ items : List CellItem, items.map CellItem.text = texts ∧ items.map CellItem.test = es ∧
      CellItem.count items = (texts.map itemOperators).sum + texts.length := by
  induction hparse with
  | nil => exact ⟨[], rfl, rfl, rfl⟩
  | cons hparse hparses ih =>
    obtain ⟨hsingle, hsingles⟩ := List.forall_mem_cons.1 hsingle
    obtain ⟨item, rfl, rfl, hoperators⟩ := hsingle.exists_item hparse
    obtain ⟨items, rfl, rfl, hcount⟩ := ih hsingles
    refine ⟨item :: items, rfl, rfl, ?_⟩
    simp only [CellItem.count, List.map_cons, List.sum_cons, List.length_cons, hoperators, hcount]
    omega

/-- A cell of items with commas between them is parsed as the alternatives that they are parsed as
one by one, unless the operators in the items and the commas are too many. -/
theorem parseCell_intercalate {text : String} {texts : List String} {e : Expr} {es : List Expr}
    (hsingle : ∀ t ∈ text :: texts, IsSingleItem t)
    (hparse : List.Forall₂ (fun t e => Expr.parseCell t = .ok e) (text :: texts) (e :: es)) :
    let parsed := Expr.parseCell (",".intercalate (text :: texts))
    if ((text :: texts).map itemOperators).sum + texts.length ≤ maxOperators then
      parsed = .ok (es.foldl (fun left right => .binary left .or right) e)
    else ∃ position, parsed = .error (.malformed position .tooManyOperators) := by
  obtain ⟨_ | ⟨item, items⟩, htexts, htests, hcount⟩ := exists_items hparse hsingle
  · cases htexts
  have hcell := item.parseCell_alternatives items
  obtain ⟨rfl, rfl⟩ := List.cons.inj htexts
  obtain ⟨rfl, rfl⟩ := List.cons.inj htests
  have hsame : item.operators + CellItem.count items =
      ((item.text :: items.map CellItem.text).map itemOperators).sum +
        (items.map CellItem.text).length := by
    rw [CellItem.count, List.length_cons] at hcount
    omega
  rwa [hsame] at hcell

def threeItemsParsed : Bool :=
  match parseCell " > a", parseCell "not in [b, c] ", parseCell "'x'" with
  | .ok (.binary .subject .gt (.field ["a"])),
    .ok (.binary .subject .notMember (.array [.field ["b"], .field ["c"]])),
    .ok (.binary .subject .eq (.literal (.string "x"))) => true
  | _, _, _ => false

theorem parseCell_three_items :
    (∀ t ∈ [" > a", "not in [b, c] ", "'x'"], IsSingleItem t) ∧
      Expr.parseCell " > a,not in [b, c] ,'x'" = .ok (.binary (.binary
        (.binary .subject .gt (.field ["a"])) .or
        (.binary .subject .notMember (.array [.field ["b"], .field ["c"]]))) .or
        (.binary .subject .eq (.string "x"))) := by
  have hsingle : ∀ t ∈ [" > a", "not in [b, c] ", "'x'"], IsSingleItem t := by decide +kernel
  have hcount : ([" > a", "not in [b, c] ", "'x'"].map itemOperators).sum +
      ["not in [b, c] ", "'x'"].length ≤ maxOperators := by decide +kernel
  have hparsed : threeItemsParsed := by decide +kernel
  have hjoined : ",".intercalate [" > a", "not in [b, c] ", "'x'"] = " > a,not in [b, c] ,'x'" := by
    decide +kernel
  rw [threeItemsParsed] at hparsed
  split at hparsed
  · next hgreater hmember hstring =>
    have hcell :=
      parseCell_intercalate hsingle (.cons hgreater (.cons hmember (.cons hstring .nil)))
    dsimp only at hcell
    rw [if_pos hcount, hjoined] at hcell
    exact ⟨hsingle, hcell⟩
  · cases hparsed

end Expr
end RuleGraph

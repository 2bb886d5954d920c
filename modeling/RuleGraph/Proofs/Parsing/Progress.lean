import RuleGraph.Proofs.Parsing.Calls
import RuleGraph.Proofs.Parsing.Following
/-!
# Progress of the parser

The parser by position ends on every list of tokens whose last one is `eof`. The position stays
before a token throughout, it never goes back on the way to a result, and what is read is a token at
least.
-/
namespace RuleGraph
namespace Indexed
open RuleGraph.Parser

def Event.pos : Event → Nat
  | .look pos | .advance pos _ | .stepBack pos => pos

/-- What is done with the position keeps to the tokens. -/
structure KeepsToTokens (tokens : List Token) (events : List Event) : Prop where
  /-- A token is there wherever one is looked at. -/
  look {p : Nat} (h : .look p ∈ events) : p < tokens.length
  /-- Tokens before `eof` are passed, or one that the position goes back to at once. -/
  advance {before after : List Event} {p width : Nat}
    (h : events = before ++ .advance p width :: after) :
    (p + width < tokens.length ∧ ∀ t ∈ (tokens.drop p).take width, t.lexeme ≠ .eof) ∨
      (p < tokens.length ∧ width = 1 ∧ ∃ rest, after = .stepBack (p + 1) :: rest)
  /-- The position goes back only after a token has been passed. -/
  stepBack {before after : List Event} {p : Nat} (h : events = before ++ .stepBack p :: after) :
    0 < p ∧ ∃ rest, before = rest ++ [.advance (p - 1) 1]

namespace Trail
variable {tokens : List Token} {p q : Nat} {events : List Event}

theorem start_lt (h : Trail tokens p events q) : p < tokens.length :=
  Nat.lt_of_le_of_lt h.start_le_stop h.stop_lt

theorem look_lt (h : Trail tokens p events q) {p' : Nat} (hlook : .look p' ∈ events) :
    p' < tokens.length := by
  induction h with
  | stay => cases hlook
  | look h ih =>
    rcases List.mem_cons.1 hlook with heq | hlook
    · cases heq
      exact h.start_lt
    · exact ih hlook
  | advance _ _ ih =>
    rcases List.mem_cons.1 hlook with heq | hlook
    · cases heq
    · exact ih hlook
  | turnBack _ ih =>
    simp only [List.mem_cons, reduceCtorEq, false_or] at hlook
    exact ih hlook

theorem advance_cases (h : Trail tokens p events q) {before after : List Event} {p' width : Nat}
    (hevents : events = before ++ .advance p' width :: after) :
    (p' + width < tokens.length ∧ ∀ t ∈ (tokens.drop p').take width, t.lexeme ≠ .eof) ∨
      (p' < tokens.length ∧ width = 1 ∧ ∃ rest, after = .stepBack (p' + 1) :: rest) := by
  induction h generalizing before with
  | stay => simp at hevents
  | look _ ih =>
    obtain ⟨rfl, heq⟩ | ⟨before, rfl, hrest⟩ := List.cons_eq_append_iff.1 hevents
    · cases heq
    · exact ih hrest
  | advance hne h ih =>
    obtain ⟨rfl, heq⟩ | ⟨before, rfl, hrest⟩ := List.cons_eq_append_iff.1 hevents
    · cases heq
      exact .inl ⟨h.start_lt, hne⟩
    · exact ih hrest
  | turnBack h ih =>
    obtain ⟨rfl, heq⟩ | ⟨before, rfl, hrest⟩ := List.cons_eq_append_iff.1 hevents
    · cases heq
      exact .inr ⟨h.start_lt, rfl, _, rfl⟩
    · obtain ⟨rfl, heq⟩ | ⟨before, rfl, hrest'⟩ := List.cons_eq_append_iff.1 hrest
      · cases heq
      · exact ih hrest'

theorem stepBack_cases (h : Trail tokens p events q) {before after : List Event} {p' : Nat}
    (hevents : events = before ++ .stepBack p' :: after) :
    0 < p' ∧ ∃ rest, before = rest ++ [.advance (p' - 1) 1] := by
  induction h generalizing before with
  | stay => simp at hevents
  | look _ ih | advance _ _ ih =>
    obtain ⟨rfl, heq⟩ | ⟨before, rfl, hrest⟩ := List.cons_eq_append_iff.1 hevents
    · cases heq
    · obtain ⟨hpos, rest, rfl⟩ := ih hrest
      exact ⟨hpos, _ :: rest, rfl⟩
  | turnBack h ih =>
    obtain ⟨rfl, heq⟩ | ⟨before, rfl, hrest⟩ := List.cons_eq_append_iff.1 hevents
    · cases heq
    · obtain ⟨rfl, heq⟩ | ⟨before, rfl, hrest'⟩ := List.cons_eq_append_iff.1 hrest
      · cases heq
        exact ⟨Nat.succ_pos _, [], rfl⟩
      · obtain ⟨hpos, rest, rfl⟩ := ih hrest'
        exact ⟨hpos, _ :: _ :: rest, rfl⟩

theorem keepsToTokens (h : Trail tokens p events q) : KeepsToTokens tokens events :=
  ⟨h.look_lt, h.advance_cases, h.stepBack_cases⟩

/-- Without a step back the position only goes on. -/
theorem pairwise_le (h : Trail tokens p events q) (hback : ∀ p, .stepBack p ∉ events) :
    (p :: (events.map Event.pos ++ [q])).Pairwise (· ≤ ·) := by
  induction h with
  | stay => simp
  | @look p q events _ ih =>
    have hrest := ih fun p' hmem => hback p' (List.mem_cons_of_mem _ hmem)
    refine List.pairwise_cons.2 ⟨fun p' hmem => ?_, hrest⟩
    rcases List.mem_cons.1 hmem with rfl | hmem
    · exact Nat.le_refl _
    · exact (List.pairwise_cons.1 hrest).1 p' hmem
  | @advance p q width events _ _ ih =>
    have hrest := ih fun p' hmem => hback p' (List.mem_cons_of_mem _ hmem)
    have hle : ∀ p' ∈ events.map Event.pos ++ [q], p ≤ p' := fun p' hmem =>
      Nat.le_trans (Nat.le_add_right p width) ((List.pairwise_cons.1 hrest).1 p' hmem)
    refine List.pairwise_cons.2 ⟨fun p' hmem => ?_,
      List.pairwise_cons.2 ⟨hle, (List.pairwise_cons.1 hrest).2⟩⟩
    rcases List.mem_cons.1 hmem with rfl | hmem
    · exact Nat.le_refl _
    · exact hle p' hmem
  | turnBack => exact absurd (List.mem_cons_of_mem _ (List.mem_cons_self ..)) (hback _)

end Trail

/-- A run keeps to the tokens and to the level of nesting. It comes to a result behind the position
that it starts from, without ever going back. -/
structure Orderly (s : State) (r : Except ParseError Expr) (s' : State) : Prop where
  tokens_eq : s'.tokens = s.tokens
  nesting_eq : s'.nesting = s.nesting
  pos_lt : s'.pos < s.tokens.length
  events : ∃ events, s'.events = s.events ++ events ∧ KeepsToTokens s.tokens events ∧
    (r.isOk → (∀ p, .stepBack p ∉ events) ∧
      (s.pos :: (events.map Event.pos ++ [s'.pos])).Pairwise (· ≤ ·))
  pos_lt_of_ok (h : r.isOk) : s.pos < s'.pos

/-- With enough calls, and with more, a run ends in the same way; it is orderly, and it comes to the
same as a parser at the tokens that are left. -/
def Proceeds (run : (calls : Nat) → Machine Expr) (enough : Nat) (parser : Parser Expr)
    (s : State) : Prop :=
  ∃ r s', (∀ calls, enough ≤ calls → run calls s = some (r, s')) ∧ Orderly s r s' ∧
    parser s.cursor = r.map (·, s'.cursor)

variable {s : State}

theorem Follows.proceeds {run : Nat → Machine Expr} {enough : Nat} {parser : Parser Expr}
    (h : Follows 1 s (run enough s) (parser s.cursor))
    (hmore : ∀ calls, enough ≤ calls → Extends (run enough) (run calls)) :
    Proceeds run enough parser s := by
  unfold Proceeds
  generalize hrun : run enough s = outcome at h
  generalize parser s.cursor = parsed at h ⊢
  cases h with
  | @ok e s' h =>
    obtain ⟨events, hfollowed, hback⟩ := h.followed
    exact ⟨.ok e, s', fun calls hle => hmore calls hle _ _ hrun,
      ⟨h.tokens_eq, h.nesting_eq, hfollowed.trail.stop_lt,
        ⟨events, hfollowed.events_eq, hfollowed.trail.keepsToTokens,
          fun _ => ⟨hback, hfollowed.trail.pairwise_le hback⟩⟩, fun _ => h.pos_le⟩, rfl⟩
  | @error x s' h =>
    obtain ⟨events, hfollowed⟩ := h
    exact ⟨.error x, s', fun calls hle => hmore calls hle _ _ hrun,
      ⟨hfollowed.tokens_eq, hfollowed.nesting_eq, hfollowed.trail.stop_lt,
        ⟨events, hfollowed.events_eq, hfollowed.trail.keepsToTokens, nofun⟩, nofun⟩, rfl⟩

theorem follows_toEnd {run : Machine Expr} {parser : Parser Expr} (hs : s.Inside)
    (h : Follows 1 s (run s) (parser s.cursor)) : Follows 1 s ((do
        let e ← run
        expectEnd
        return e : Machine Expr) s) ((do
        let e ← parser
        Parser.expectEnd
        return e : Parser Expr) s.cursor) :=
  h.bind fun e _ h₁ => (Follows.expectEnd (h₁.inside hs)).bind fun _ _ h₂ =>
    .pure (h₂.inside (h₁.inside hs)) e

theorem follows_wholeExpression {calls : Nat} (hs : s.Inside) (hnesting : s.nesting = 0)
    (hcalls : 16 * s.left + 14 ≤ calls) :
    Follows 1 s (wholeExpression calls s) (Parser.wholeExpression s.cursor) := by
  have hinner := innerFollowed s.left 0
  rw [Nat.sub_zero] at hinner
  unfold Parser.wholeExpression
  rw [left_bind, State.length_cursor]
  exact follows_toEnd hs (hinner.expression ⟨hs, Nat.le_refl _, hnesting⟩ hcalls)

theorem follows_wholeCell {calls : Nat} (hs : s.Inside) (hnesting : s.nesting = 0)
    (hcalls : 16 * s.left + 16 ≤ calls) :
    Follows 1 s (wholeCell calls s) (Parser.wholeCell s.cursor) := by
  have hinner := innerFollowed s.left 0
  rw [Nat.sub_zero] at hinner
  unfold Parser.wholeCell
  rw [left_bind, State.length_cursor]
  exact follows_toEnd hs (keepsTo_alternatives hinner ⟨hs, Nat.le_refl _, hnesting⟩ hcalls)

/-- Every part ends wherever it starts before the end of the tokens, and so do whole texts. -/
theorem parser_progresses {tokens : List Token}
    (hlast : tokens.getLast?.map Token.lexeme = some .eof) :
    (∀ (part : Part) (s : State) (fuel : Nat), s.tokens = tokens → s.pos < tokens.length →
      s.left ≤ fuel → Proceeds (parse · part) (16 * s.left + part.rank)
        (part.parser fuel (maxNesting - s.nesting)) s) ∧
    Proceeds wholeExpression (16 * tokens.length + 14) Parser.wholeExpression (.start tokens) ∧
    Proceeds wholeCell (16 * tokens.length + 16) Parser.wholeCell (.start tokens) := by
  have hne : tokens ≠ [] := by
    rintro rfl
    cases hlast
  have hs : (State.start tokens).Inside := ⟨List.length_pos_iff.2 hne, hlast⟩
  refine ⟨fun part s fuel htokens hlt hfuel => ?_, ?_, ?_⟩
  · subst htokens
    exact (follows_part part ⟨hlt, hlast⟩ hfuel (Nat.le_refl _)).proceeds
      fun _ hle => parse_extends hle part
  · exact (follows_wholeExpression hs rfl (Nat.le_refl _)).proceeds
      fun _ => wholeExpression_extends
  · exact (follows_wholeCell hs rfl (Nat.le_refl _)).proceeds fun _ => wholeCell_extends

def exclusion : List Token :=
  [⟨.notWord, 0⟩, ⟨.inWord, 4⟩, ⟨.identifier "a", 7⟩, ⟨.eof, 8⟩]

theorem parser_progresses_exclusion :
    exclusion.getLast?.map Token.lexeme = some .eof ∧
    Proceeds (parse · (.chain .sum)) 38 (Part.parser 2 (.chain .sum) maxNesting)
      ⟨exclusion, 2, 0, 0, []⟩ ∧
    Proceeds wholeExpression 78 Parser.wholeExpression (.start exclusion) ∧
    ∃ s, (∀ calls, 80 ≤ calls → wholeCell calls (.start exclusion) =
        some (.ok (.binary .subject .notMember (.field ["a"])), s)) ∧
      Orderly (.start exclusion) (.ok (.binary .subject .notMember (.field ["a"]))) s ∧
      s.pos = 3 := by
  have hlast : exclusion.getLast?.map Token.lexeme = some .eof := rfl
  have hcell : Parser.wholeCell ⟨exclusion, 0⟩ =
      .ok (.binary .subject .notMember (.field ["a"]), ⟨[⟨.eof, 8⟩], 0⟩) := rfl
  obtain ⟨hparts, hexpression, r, s, hrun, horderly, hparser⟩ := parser_progresses hlast
  have hr : r.map (·, s.cursor) =
      .ok (.binary .subject .notMember (.field ["a"]), ⟨[⟨.eof, 8⟩], 0⟩) :=
    hparser.symm.trans hcell
  have hsum := hparts (.chain .sum) ⟨exclusion, 2, 0, 0, []⟩ 2 rfl (by decide) (by decide)
  refine ⟨hlast, hsum, hexpression, s, ?_⟩
  cases r with
  | error x => cases hr
  | ok e =>
    obtain ⟨rfl, hcursor⟩ := Prod.mk.inj (Except.ok.inj hr)
    have hleft : s.left = 1 := by rw [← State.length_cursor, hcursor, List.length_singleton]
    have htokens : s.tokens.length = 4 := congrArg List.length horderly.tokens_eq
    refine ⟨hrun, horderly, ?_⟩
    unfold State.left at hleft
    omega

/-- Where a name should follow the dot, the end is passed and the position goes back to it. -/
example : (wholeExpression 62 (.start [⟨.identifier "a", 0⟩, ⟨.dot, 1⟩, ⟨.eof, 2⟩])).map
      (fun r => (r.2.pos, r.2.events.drop 8)) =
    some (2, [.look 2, .advance 2 1, .stepBack 3, .look 2]) := rfl

end Indexed
end RuleGraph

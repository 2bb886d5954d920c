import RuleGraph.Proofs.Parsing.Indexed
import RuleGraph.Proofs.Parsing.Lexing
import RuleGraph.Proofs.Parsing.Reading
/-!
# The course of a run by position

Where the position goes in a run that begins before the end of the tokens, and that the run comes to
the same as a parser that keeps only the tokens that are left.
-/
namespace RuleGraph
namespace Indexed
open RuleGraph.Parser

/-- The position on its way: it stands before a token whenever one is looked at and at last, and a
token that is passed is not `eof`, unless the position goes back at once. -/
inductive Trail (tokens : List Token) : (start : Nat) → List Event → (stop : Nat) → Prop
  | stay {p : Nat} (hp : p < tokens.length) : Trail tokens p [] p
  | look {p q : Nat} {events : List Event} (h : Trail tokens p events q) :
    Trail tokens p (.look p :: events) q
  | advance {p q width : Nat} {events : List Event}
    (hne : ∀ t ∈ (tokens.drop p).take width, t.lexeme ≠ .eof)
    (h : Trail tokens (p + width) events q) : Trail tokens p (.advance p width :: events) q
  | turnBack {p q : Nat} {events : List Event} (h : Trail tokens p events q) :
    Trail tokens p (.advance p 1 :: .stepBack (p + 1) :: events) q

namespace Trail
variable {tokens : List Token} {p q r : Nat} {events events' : List Event}

theorem append (h : Trail tokens p events q) (h' : Trail tokens q events' r) :
    Trail tokens p (events ++ events') r := by
  induction h with
  | stay => exact h'
  | look _ ih => exact .look (ih h')
  | advance hne _ ih => exact .advance hne (ih h')
  | turnBack _ ih => exact .turnBack (ih h')

theorem stop_lt (h : Trail tokens p events q) : q < tokens.length := by
  induction h with
  | stay hp => exact hp
  | look _ ih | advance _ _ ih | turnBack _ ih => exact ih

theorem start_le_stop (h : Trail tokens p events q) : p ≤ q := by
  induction h with
  | stay => exact Nat.le_refl _
  | look _ ih | turnBack _ ih => exact ih
  | advance _ _ ih => omega

end Trail

namespace State

def cursor (s : State) : Cursor :=
  ⟨s.tokens.drop s.pos, s.operators⟩

/-- The position is before a token, and the last token is `eof`. -/
structure Inside (s : State) : Prop where
  pos_lt : s.pos < s.tokens.length
  last_eof : s.tokens.getLast?.map Token.lexeme = some .eof

def left (s : State) : Nat :=
  s.tokens.length - s.pos

variable {s : State}

@[simp] theorem length_cursor (s : State) : s.cursor.tokens.length = s.left :=
  List.length_drop

@[simp] theorem cursor_looked (s : State) : s.looked.cursor = s.cursor := rfl

namespace Inside

theorem drop_eq (h : s.Inside) :
    s.tokens.drop s.pos = s.tokens.get ⟨s.pos, h.pos_lt⟩ :: s.tokens.drop (s.pos + 1) :=
  List.drop_eq_getElem_cons h.pos_lt

theorem tokenAt_zero (h : s.Inside) : s.tokenAt 0 = some (s.tokens.get ⟨s.pos, h.pos_lt⟩) := by
  simp [tokenAt, h.pos_lt]

theorem head_eq (h : s.Inside) : s.cursor.head = (s.tokens.get ⟨s.pos, h.pos_lt⟩).lexeme := by
  rw [cursor, h.drop_eq]
  rfl

theorem lexemeAt_zero (h : s.Inside) : s.lexemeAt 0 = s.cursor.head := by
  simp [lexemeAt, h.tokenAt_zero, h.head_eq]

theorem place_eq (h : s.Inside) : (s.tokenAt 0).elim 0 Token.position = s.cursor.position := by
  rw [h.tokenAt_zero, cursor, h.drop_eq]
  rfl

theorem succ_lt (h : s.Inside) (hne : s.cursor.head ≠ .eof) : s.pos + 1 < s.tokens.length := by
  have hlt := h.pos_lt
  refine Nat.lt_of_le_of_ne hlt fun hlast => hne ?_
  have heof := h.last_eof
  rw [List.getLast?_eq_getElem?, ← hlast, Nat.add_sub_cancel, List.getElem?_eq_getElem hlt] at heof
  rw [h.head_eq]
  exact Option.some.inj heof

theorem lexemeAt_one (h : s.Inside) : s.lexemeAt 1 = s.cursor.second := by
  unfold lexemeAt tokenAt Cursor.second cursor
  rw [h.drop_eq]
  by_cases hlt : s.pos + 1 < s.tokens.length
  · rw [List.drop_eq_getElem_cons hlt, List.getElem?_eq_getElem hlt]
    rfl
  · have hlast := h.last_eof
    rw [List.drop_eq_nil_of_le (Nat.le_of_not_lt hlt),
      List.getElem?_eq_none (Nat.le_of_not_lt hlt), Option.none_or]
    cases hend : s.tokens.getLast? with
    | none => rfl
    | some t =>
      rw [hend] at hlast
      exact Option.some.inj hlast

theorem cursor_forward (h : s.Inside) (hne : s.cursor.head ≠ .eof) :
    (s.forward 1).cursor = s.cursor.next := by
  unfold cursor Cursor.next
  rw [h.drop_eq, List.drop_eq_getElem_cons (h.succ_lt hne)]
  exact congrArg (Cursor.mk · s.operators) (List.drop_eq_getElem_cons (h.succ_lt hne))

theorem head_next (h : s.Inside) (hne : s.cursor.head ≠ .eof) :
    s.cursor.next.head = s.cursor.second := by
  unfold Cursor.next Cursor.second cursor
  rw [h.drop_eq, List.drop_eq_getElem_cons (h.succ_lt hne)]
  rfl

theorem forward (h : s.Inside) (hne : s.cursor.head ≠ .eof) : (s.forward 1).Inside :=
  ⟨h.succ_lt hne, h.last_eof⟩

theorem take_one (h : s.Inside) (hne : s.cursor.head ≠ .eof) :
    ∀ t ∈ (s.tokens.drop s.pos).take 1, t.lexeme ≠ .eof := by
  rw [h.drop_eq, List.take_succ_cons, List.take_zero]
  rw [h.head_eq] at hne
  simpa using hne

theorem looked (h : s.Inside) : s.looked.Inside :=
  ⟨h.pos_lt, h.last_eof⟩

theorem entered (h : s.Inside) : s.entered.Inside :=
  ⟨h.pos_lt, h.last_eof⟩

theorem left_pos (h : s.Inside) : 0 < s.left :=
  Nat.sub_pos_of_lt h.pos_lt

end Inside
end State

/-- What is done with the position between two states. -/
structure Followed (s s' : State) (events : List Event) : Prop where
  events_eq : s'.events = s.events ++ events
  trail : Trail s.tokens s.pos events s'.pos
  tokens_eq : s'.tokens = s.tokens
  nesting_eq : s'.nesting = s.nesting

/-- A run goes on in this state, at least `k` tokens further; the position has never gone back. -/
structure Reached (k : Nat) (s s' : State) : Prop where
  pos_le : s.pos + k ≤ s'.pos
  operators_le : s.operators ≤ s'.operators
  followed : ∃ events, Followed s s' events ∧ ∀ p, .stepBack p ∉ events

/-- A run fails in this state. -/
def Stopped (s s' : State) : Prop :=
  ∃ events, Followed s s' events

variable {s s' s'' : State} {k l : Nat} {events events' : List Event}

theorem Followed.trans (h : Followed s s' events) (h' : Followed s' s'' events') :
    Followed s s'' (events ++ events') where
  events_eq := by rw [h'.events_eq, h.events_eq, List.append_assoc]
  trail := h.trail.append (h.tokens_eq ▸ h'.trail)
  tokens_eq := h'.tokens_eq.trans h.tokens_eq
  nesting_eq := h'.nesting_eq.trans h.nesting_eq

theorem followed_looked (hs : s.Inside) : Followed s s.looked [.look s.pos] :=
  ⟨rfl, .look (.stay hs.pos_lt), rfl, rfl⟩

namespace Reached

theorem refl (hs : s.Inside) : Reached 0 s s :=
  ⟨Nat.le_refl _, Nat.le_refl _, [], ⟨(List.append_nil _).symm, .stay hs.pos_lt, rfl, rfl⟩, nofun⟩

theorem looked (hs : s.Inside) : Reached 0 s s.looked :=
  ⟨Nat.le_refl _, Nat.le_refl _, [.look s.pos], followed_looked hs, by simp⟩

theorem counted (hs : s.Inside) : Reached 0 s s.counted :=
  ⟨Nat.le_refl _, Nat.le_succ _, [], ⟨(List.append_nil _).symm, .stay hs.pos_lt, rfl, rfl⟩, nofun⟩

theorem forward {width : Nat} (hlt : s.pos + width < s.tokens.length)
    (hne : ∀ t ∈ (s.tokens.drop s.pos).take width, t.lexeme ≠ .eof) :
    Reached width s (s.forward width) :=
  ⟨Nat.le_refl _, Nat.le_refl _, [.advance s.pos width],
    ⟨rfl, .advance hne (.stay hlt), rfl, rfl⟩, by simp⟩

theorem trans (h : Reached k s s') (h' : Reached l s' s'') : Reached (k + l) s s'' := by
  obtain ⟨events, hfollowed, hback⟩ := h.followed
  obtain ⟨events', hfollowed', hback'⟩ := h'.followed
  have hpos := h.pos_le
  have hpos' := h'.pos_le
  refine ⟨by omega, Nat.le_trans h.operators_le h'.operators_le, events ++ events',
    hfollowed.trans hfollowed', fun p hp => ?_⟩
  exact (List.mem_append.1 hp).elim (hback p) (hback' p)

theorem forwardOne (hs : s.Inside) (hne : s.cursor.head ≠ .eof) : Reached 1 s (s.forward 1) :=
  .forward (hs.succ_lt hne) (hs.take_one hne)

theorem advance (hs : s.Inside) (hne : s.cursor.head ≠ .eof) :
    Reached 1 s (s.looked.forward 1) :=
  (Reached.looked hs).trans (.forwardOne hs.looked hne)

theorem mono (h : Reached k s s') (hlk : l ≤ k) : Reached l s s' :=
  { h with pos_le := Nat.le_trans (Nat.add_le_add_left hlk _) h.pos_le }

theorem stopped (h : Reached k s s') (h' : Stopped s' s'') : Stopped s s'' := by
  obtain ⟨events, hfollowed, -⟩ := h.followed
  obtain ⟨events', hfollowed'⟩ := h'
  exact ⟨events ++ events', hfollowed.trans hfollowed'⟩

theorem isStopped (h : Reached k s s') : Stopped s s' := by
  obtain ⟨events, hfollowed, -⟩ := h.followed
  exact ⟨events, hfollowed⟩

theorem tokens_eq (h : Reached k s s') : s'.tokens = s.tokens := by
  obtain ⟨events, hfollowed, -⟩ := h.followed
  exact hfollowed.tokens_eq

theorem nesting_eq (h : Reached k s s') : s'.nesting = s.nesting := by
  obtain ⟨events, hfollowed, -⟩ := h.followed
  exact hfollowed.nesting_eq

theorem inside (h : Reached k s s') (hs : s.Inside) : s'.Inside := by
  obtain ⟨events, hfollowed, -⟩ := h.followed
  exact ⟨h.tokens_eq ▸ hfollowed.trail.stop_lt, h.tokens_eq ▸ hs.last_eof⟩

theorem left_le (h : Reached k s s') (hs : s.Inside) : s'.left + k ≤ s.left := by
  have hpos := h.pos_le
  have hlt := (h.inside hs).pos_lt
  have htokens := congrArg List.length h.tokens_eq
  unfold State.left
  omega

end Reached

/-- Behind a token, any part can be read with what is left of the calls. -/
theorem Reached.affords {calls m rank : Nat} (h : Reached 1 s s') (hs : s.Inside)
    (hcalls : 16 * s.left + m ≤ calls + 1) (hrank : rank ≤ 15) : 16 * s'.left + rank ≤ calls := by
  have hleft := h.left_le hs
  omega

/-- A state inside the tokens with at most `n` of them left, on a level of nesting. -/
structure Ready (n nesting : Nat) (s : State) : Prop where
  inside : s.Inside
  left_le : s.left ≤ n
  nesting_eq : s.nesting = nesting

variable {n d : Nat}

theorem Ready.reached (hs : Ready (n + k) d s) (h : Reached k s s') : Ready n d s' :=
  ⟨h.inside hs.inside, by have := h.left_le hs.inside; have := hs.left_le; omega,
    h.nesting_eq.trans hs.nesting_eq⟩

theorem Ready.keep (hs : Ready n d s) (h : Reached k s s') : Ready n d s' :=
  Ready.reached (k := 0) hs (h.mono (Nat.zero_le k))

theorem Ready.looked (hs : Ready n d s) : Ready n d s.looked :=
  hs.keep (.looked hs.inside)

theorem Ready.mono {n' : Nat} (hs : Ready n d s) (h : n ≤ n') : Ready n' d s :=
  { hs with left_le := Nat.le_trans hs.left_le h }

variable {α β : Type}

theorem bind_apply (p : Machine α) (f : α → Machine β) (s : State) :
    (p >>= f) s = (p s).bind fun r => ExceptT.bindCont f r.1 r.2 := rfl

theorem peek_apply (f : Lexeme → Machine β) (hs : s.Inside) :
    (peek >>= f) s = f s.cursor.head s.looked := by
  rw [← hs.lexemeAt_zero]
  rfl

theorem peekAt_apply (offset : Nat) (f : Lexeme → Machine β) (s : State) :
    (peekAt offset >>= f) s = f (s.lexemeAt offset) s.looked := rfl

/-- A run ends with what a parser comes to at the tokens that are left: with its result at least `k`
tokens further, before the tokens that the parser leaves, or with its error. -/
inductive Follows (k : Nat) (s : State) :
    Option (Except ParseError α × State) → Except ParseError (α × Cursor) → Prop
  | ok {a : α} {s' : State} (h : Reached k s s') :
    Follows k s (some (.ok a, s')) (.ok (a, s'.cursor))
  | error {x : ParseError} {s' : State} (h : Stopped s s') :
    Follows k s (some (.error x, s')) (.error x)

namespace Follows
variable {run : Option (Except ParseError α × State)} {outcome : Except ParseError (α × Cursor)}

theorem mono (h : Follows k s run outcome) (hlk : l ≤ k) : Follows l s run outcome := by
  cases h with
  | ok h => exact .ok (h.mono hlk)
  | error h => exact .error h

theorem forget (h : Follows k s run outcome) : Follows 0 s run outcome :=
  h.mono (Nat.zero_le k)

theorem after (h : Reached k s s') (h' : Follows 0 s' run outcome) : Follows k s run outcome := by
  cases h' with
  | ok h' => exact .ok (h.trans h')
  | error h' => exact .error (h.stopped h')

theorem later (h : Reached 0 s s') (h' : Follows k s' run outcome) : Follows k s run outcome := by
  cases h' with
  | ok h' => exact .ok ((h.trans h').mono (Nat.le_add_left k 0))
  | error h' => exact .error (h.stopped h')

theorem bind {p : Machine α} {q : Parser α} {f : α → Machine β} {g : α → Parser β}
    (h : Follows k s (p s) (q s.cursor))
    (h' : ∀ a s', Reached k s s' → Follows 0 s' (f a s') (g a s'.cursor)) :
    Follows k s ((p >>= f) s) ((q >>= g) s.cursor) := by
  rw [bind_apply]
  change Follows _ _ _ (q s.cursor >>= fun r => g r.1 r.2)
  generalize p s = run at h ⊢
  generalize q s.cursor = outcome at h ⊢
  cases h with
  | ok h => exact after h (h' _ _ h)
  | error h => exact .error h

theorem pure (hs : s.Inside) (a : α) :
    Follows 0 s ((Pure.pure a : Machine α) s) ((Pure.pure a : Parser α) s.cursor) :=
  .ok (.refl hs)

theorem map {p : Machine α} {q : Parser α} (h : Follows k s (p s) (q s.cursor)) (hs : s.Inside)
    (f : α → β) : Follows k s ((p >>= fun a => Pure.pure (f a)) s)
      ((q >>= fun a => Pure.pure (f a)) s.cursor) :=
  h.bind fun a _ h' => pure (h'.inside hs) (f a)

theorem throw (hs : s.Inside) (x : ParseError) :
    Follows k s ((throwThe ParseError x : Machine α) s)
      ((throwThe ParseError x : Parser α) s.cursor) :=
  .error (Reached.refl hs).isStopped

theorem fail_apply (hs : s.Inside) (fault : Fault) : (Indexed.fail fault : Machine α) s =
    some (.error (.malformed s.cursor.position fault), s.looked) :=
  congrArg (fun place => some (Except.error (ParseError.malformed place fault), s.looked))
    hs.place_eq

theorem fail (hs : s.Inside) (fault : Fault) :
    Follows k s ((Indexed.fail fault : Machine α) s) ((Parser.fail fault : Parser α) s.cursor) := by
  rw [fail_apply hs]
  exact .error (Reached.looked hs).isStopped

theorem peek {f : Lexeme → Machine β} {outcome : Except ParseError (β × Cursor)} (hs : s.Inside)
    (h : Follows k s.looked (f s.cursor.head s.looked) outcome) :
    Follows k s ((peek >>= f) s) outcome := by
  rw [peek_apply f hs]
  exact later (.looked hs) h

theorem refuse (hs : s.Inside) (what : Expected) :
    Follows k s ((refuse what : Machine α) s) ((Parser.refuse what : Parser α) s.cursor) := by
  refine peek hs ?_
  unfold Parser.refuse Cursor.unexpected
  cases s.cursor.head with
  | eof => exact throw hs.looked _
  | _ => exact fail hs.looked _

theorem advance_bind (f : Lexeme → Machine β) (hs : s.Inside) :
    (Indexed.advance >>= f) s = f s.cursor.head (s.looked.forward 1) := by
  change f (s.lexemeAt 0) (if s.pos < s.tokens.length then s.looked.forward 1 else s.looked) = _
  rw [if_pos hs.pos_lt, hs.lexemeAt_zero]

theorem advance {t : Lexeme} {f : Lexeme → Machine β} {g : Unit → Parser β} (hs : s.Inside)
    (ht : s.cursor.head = t) (hne : t ≠ .eof)
    (h : ∀ s', Reached 1 s s' → Follows 0 s' (f t s') (g () s'.cursor)) :
    Follows 1 s ((Indexed.advance >>= f) s) ((skip >>= g) s.cursor) := by
  subst ht
  have hcursor : (s.looked.forward 1).cursor = s.cursor.next := hs.looked.cursor_forward hne
  rw [advance_bind f hs, skip_bind, ← hcursor]
  exact after (.advance hs hne) (h _ (.advance hs hne))

theorem turnBack {f : Lexeme → Machine β} {what : Expected} (hs : s.Inside)
    (h : f s.cursor.head = (stepBack >>= fun _ => Indexed.refuse what)) :
    Follows k s ((Indexed.advance >>= f) s) ((Parser.refuse what : Parser β) s.cursor) := by
  rw [advance_bind f hs, h]
  change Follows k s (Indexed.refuse what (s.looked.forward 1).back) _
  have hback : Followed s (s.looked.forward 1).back
      [.look s.pos, .advance s.pos 1, .stepBack (s.pos + 1)] :=
    ⟨by simp [State.looked, State.forward, State.back], .look (.turnBack (.stay hs.pos_lt)),
      rfl, rfl⟩
  have hrefuse : Follows k (s.looked.forward 1).back
      ((Indexed.refuse what : Machine β) (s.looked.forward 1).back)
      (.error (s.cursor.unexpected what)) :=
    refuse (s := (s.looked.forward 1).back) ⟨hs.pos_lt, hs.last_eof⟩ what
  generalize (Indexed.refuse what : Machine β) (s.looked.forward 1).back = run at hrefuse ⊢
  cases hrefuse with
  | error h =>
    obtain ⟨events, hfollowed⟩ := h
    exact .error ⟨_, hback.trans hfollowed⟩

theorem eat {t : Lexeme} {p p' : Machine β} {q q' : Parser β} (hs : s.Inside) (ht : t.isMark)
    (hk : k ≤ 1) (hthen : ∀ s', Reached 1 s s' → Follows 0 s' (p s') (q s'.cursor))
    (helse : (s.cursor.head == t) = false → Follows k s.looked (p' s.looked) (q' s.cursor)) :
    Follows k s ((Indexed.eat t >>= fun b => if b = true then p else p') s)
      ((Parser.eat t >>= fun b => if b = true then q else q') s.cursor) := by
  rw [Indexed.eat, bind_assoc]
  refine peek hs ?_
  cases h : s.cursor.head == t with
  | true =>
    have hne : t ≠ .eof := by
      rintro rfl
      cases ht
    rw [if_pos rfl, bind_assoc, eat_then h]
    refine (advance (g := fun _ => q) hs.looked ((Lexeme.beq_mark ht _).1 h) hne
      fun s' h' => ?_).mono hk
    exact hthen s' (.trans (.looked hs) h')
  | false =>
    rw [if_neg Bool.false_ne_true, eat_else h]
    exact helse h

theorem expect {t : Lexeme} {f : Unit → Machine β} {g : Unit → Parser β} (hs : s.Inside)
    (ht : t.isMark) (what : Expected)
    (h : ∀ s', Reached 1 s s' → Follows 0 s' (f () s') (g () s'.cursor)) :
    Follows 1 s ((Indexed.expect t what >>= f) s) ((Parser.expect t what >>= g) s.cursor) := by
  have hexpect : Follows 1 s (Indexed.expect t what s) (Parser.expect t what s.cursor) :=
    eat hs ht (Nat.le_refl 1) (fun s' h' => pure (h'.inside hs) ()) fun _ =>
      refuse hs.looked what
  exact hexpect.bind fun _ => h

theorem countOperator {f : Unit → Machine β} {g : Unit → Parser β} (hs : s.Inside)
    (h : s.operators < maxOperators →
      Follows k s.counted (f () s.counted) (g () s.counted.cursor)) :
    Follows k s ((Indexed.countOperator >>= f) s) ((Parser.countOperator >>= g) s.cursor) := by
  have hcounted : Reached 0 s s.counted := .counted hs
  rw [bind_apply]
  change Follows k s _ (Parser.countOperator s.cursor >>= fun r => g r.1 r.2)
  unfold Indexed.countOperator Parser.countOperator
  by_cases hlimit : maxOperators ≤ s.cursor.operators
  · have hmore : maxOperators < s.counted.operators := Nat.lt_succ_of_le hlimit
    rw [if_pos hmore, if_pos hlimit, fail_apply (hcounted.inside hs)]
    exact .error (hcounted.trans (.looked (hcounted.inside hs))).isStopped
  · have hmore : ¬maxOperators < s.counted.operators := fun h => hlimit (Nat.le_of_lt_succ h)
    rw [if_neg hmore, if_neg hlimit]
    exact later hcounted (h (Nat.lt_of_not_le hlimit))

theorem expectEnd (hs : s.Inside) :
    Follows 0 s (Indexed.expectEnd s) (Parser.expectEnd s.cursor) := by
  refine peek hs ?_
  unfold Parser.expectEnd
  rw [peek_bind]
  cases s.cursor.head with
  | eof => exact pure hs.looked ()
  | _ => exact fail hs.looked _

end Follows

end Indexed
end RuleGraph

import RuleGraph.Proofs.Expr.Evaluation
import RuleGraph.Proofs.Parsing.Soundness
/-!
# What an expression sees

The result of an expression depends on the members of the context that its fields begin with, on the
element and, if `$` is mentioned, on the subject, and on nothing else.
-/
namespace RuleGraph

namespace Expr

mutual

/-- The members of the context that the fields of an expression begin with. -/
def fieldRoots : Expr → List String
  | .field path => path.head?.toList
  | .literal _ | .subject | .element => []
  | .index base key => base.fieldRoots ++ key.fieldRoots
  | .binary left _ right => left.fieldRoots ++ right.fieldRoots
  | .unary _ operand => operand.fieldRoots
  | .call _ args => allFieldRoots args
  | .ternary condition yes no => condition.fieldRoots ++ yes.fieldRoots ++ no.fieldRoots
  | .array items => allFieldRoots items
  | .object entries => entriesFieldRoots entries
  | .interval start stop _ _ => start.fieldRoots ++ stop.fieldRoots
termination_by structural e => e

def allFieldRoots : List Expr → List String
  | [] => []
  | e :: rest => e.fieldRoots ++ allFieldRoots rest
termination_by structural es => es

def entriesFieldRoots : List (String × Expr) → List String
  | [] => []
  | (_, e) :: rest => e.fieldRoots ++ entriesFieldRoots rest
termination_by structural entries => entries

end

end Expr

/-- Two scopes show the same element, the same members of the context among some and, if it is
mentioned, the same subject. -/
structure Scope.Alike (roots : List String) (mentioned : Bool) (s s' : Scope) : Prop where
  element : s'.element? = s.element?
  member : ∀ key ∈ roots, s'.root.get? key = s.root.get? key
  subject : mentioned → s'.subject = s.subject

namespace Scope
variable {roots more : List String} {mentioned also : Bool} {s s' : Scope}

theorem Alike.left (h : Alike (roots ++ more) (mentioned || also) s s') :
    Alike roots mentioned s s' :=
  ⟨h.element, fun key hkey => h.member key (List.mem_append_left more hkey),
    fun hmentioned => h.subject (by simp [hmentioned])⟩

theorem Alike.right (h : Alike (roots ++ more) (mentioned || also) s s') :
    Alike more also s s' :=
  ⟨h.element, fun key hkey => h.member key (List.mem_append_right roots hkey),
    fun halso => h.subject (by simp [halso])⟩

theorem Alike.withElement (h : Alike roots mentioned s s') (v : Value) :
    Alike roots mentioned (s.withElement v) (s'.withElement v) :=
  ⟨rfl, h.member, h.subject⟩

theorem Alike.field {path : List String} (h : Alike path.head?.toList mentioned s s') :
    s'.root.field path = s.root.field path := by
  cases path with
  | nil => rfl
  | cons first rest => rw [Value.field, Value.field, h.member first (by simp)]

end Scope

namespace Expr
open Scope

mutual

/-- In scopes that look the same an expression has the same result. -/
theorem eval_of_alike (e : Expr) {s s' : Scope} (h : Alike e.fieldRoots e.mentionsSubject s s') :
    e.eval s' = e.eval s := by
  match e with
  | .literal _ | .interval _ _ _ _ => rfl
  | .field path => exact h.field
  | .subject => exact h.subject rfl
  | .element => rw [eval, eval, Scope.element, Scope.element, h.element]
  | .index base key => rw [eval, eval, eval_of_alike base h.left, eval_of_alike key h.right]
  | .unary op operand => rw [eval, eval, eval_of_alike operand h]
  | .binary left op right =>
    have hleft := eval_of_alike left h.left
    cases hi : right.isInterval with
    | false => exact eval_binary_of_operands hleft (eval_of_alike right h.right) hi hi
    | true =>
      match right with
      | .interval start stop i j =>
        have hstart := eval_of_alike start h.right.left
        have hstop := eval_of_alike stop h.right.right
        cases op <;> simp only [eval, hleft, hstart, hstop]
  | .ternary condition yes no =>
    rw [eval, eval, eval_of_alike condition h.left.left, eval_of_alike yes h.left.right,
      eval_of_alike no h.right]
  | .array items => rw [eval, eval, evalAll_of_alike items h]
  | .object entries => rw [eval, eval, evalEntries_of_alike entries h]
  | .call f args =>
    cases hcount : f.accepts args.length with
    | false => rw [eval_call_of_not_accepts hcount, eval_call_of_not_accepts hcount]
    | true =>
      cases hf : f.isClosure with
      | false =>
        rw [eval_call_of_accepts hf hcount, eval_call_of_accepts hf hcount,
          evalAll_of_alike args h]
      | true =>
        match args with
        | [collection, body] =>
          have hcollection := eval_of_alike collection (h : Alike _ _ s s').left
          have hsides : Alike _ _ s s' := h
          have hbody (v : Value) := eval_of_alike body (hsides.right.left.withElement v)
          rw [eval_call_of_isClosure hf, eval_call_of_isClosure hf, hcollection]
          simp only [hbody]
        | [] | [_] | _ :: _ :: _ :: _ =>
          exact absurd (Builtin.eq_two_of_accepts hf hcount) (by simp)
termination_by structural e

theorem evalAll_of_alike (es : List Expr) {s s' : Scope}
    (h : Alike (allFieldRoots es) (anyMentionsSubject es) s s') :
    evalAll es s' = evalAll es s := by
  match es with
  | [] => rfl
  | e :: rest => rw [evalAll, evalAll, eval_of_alike e h.left, evalAll_of_alike rest h.right]
termination_by structural es

theorem evalEntries_of_alike (entries : List (String × Expr)) {s s' : Scope}
    (h : Alike (entriesFieldRoots entries) (entriesMentionSubject entries) s s') :
    evalEntries entries s' = evalEntries entries s := by
  match entries with
  | [] => rfl
  | (key, e) :: rest =>
    rw [evalEntries, evalEntries, eval_of_alike e h.left, evalEntries_of_alike rest h.right]
termination_by structural entries

end

end Expr

def Phrase.fieldRoots : Phrase → List String
  | .expression _ e => e.fieldRoots
  | .items es => Expr.allFieldRoots es
  | .entries es => Expr.entriesFieldRoots es

namespace Expr

theorem allFieldRoots_append (es es' : List Expr) :
    allFieldRoots (es ++ es') = allFieldRoots es ++ allFieldRoots es' := by
  induction es with
  | nil => rfl
  | cons e rest ih => simp [allFieldRoots, ih]

theorem entriesFieldRoots_append (entries entries' : List (String × Expr)) :
    entriesFieldRoots (entries ++ entries') =
      entriesFieldRoots entries ++ entriesFieldRoots entries' := by
  induction entries with
  | nil => rfl
  | cons entry rest ih => simp [entriesFieldRoots, ih]

theorem fieldRoots_negated (e : Expr) : (Parser.negated e).fieldRoots = e.fieldRoots := by
  unfold Parser.negated
  split <;> rfl

theorem mem_fieldRoots_memberOf {e : Expr} {name key : String}
    (h : key ∈ (Parser.memberOf e name).fieldRoots) : key ∈ e.fieldRoots ∨ key = name := by
  unfold Parser.memberOf at h
  split at h
  · next path =>
    cases path with
    | nil => exact .inr (by simpa [fieldRoots] using h)
    | cons first rest => exact .inl (by simpa [fieldRoots] using h)
  · exact .inl (by simpa [fieldRoots, string] using h)

theorem fieldRoots_testOf (e : Expr) : (Parser.testOf e).fieldRoots = e.fieldRoots := by
  unfold Parser.testOf
  split
  · rfl
  · split <;> rfl

end Expr

theorem Derives.identifier_mem {d : Nat} {ts : List Lexeme} {phrase : Phrase}
    (h : Derives d ts phrase) {key : String} (hkey : key ∈ phrase.fieldRoots) :
    .identifier key ∈ ts := by
  induction h with
  | tighter L h ih => exact ih hkey
  | @atom d t e h => cases t <;> cases h <;> cases hkey
  | name name =>
    obtain rfl : key = name := by simpa [Phrase.fieldRoots, Expr.fieldRoots] using hkey
    exact List.mem_cons_self
  | member name h ih =>
    rcases Expr.mem_fieldRoots_memberOf hkey with hkey | rfl
    · exact List.mem_append_left _ (ih hkey)
    · simp
  | negate h ih =>
    rw [Phrase.fieldRoots, Expr.fieldRoots_negated] at hkey
    exact List.mem_cons_of_mem _ (ih hkey)
  | emptyArray | emptyObject | emptyCall => cases hkey
  | item h ih => exact ih (by simpa [Phrase.fieldRoots, Expr.allFieldRoots] using hkey)
  | moreItems hs h ihs ih =>
    simp only [Phrase.fieldRoots, Expr.allFieldRoots_append, Expr.allFieldRoots, List.append_nil,
      List.mem_append] at hkey ihs ih
    rcases hkey with hkey | hkey
    · simp [ihs hkey]
    · simp [ih hkey]
  | entry hname h ih =>
    have := ih (by simpa [Phrase.fieldRoots, Expr.entriesFieldRoots] using hkey)
    simp [this]
  | moreEntries hs hname h ihs ih =>
    simp only [Phrase.fieldRoots, Expr.entriesFieldRoots_append, Expr.entriesFieldRoots,
      List.append_nil, List.mem_append] at hkey ihs ih
    rcases hkey with hkey | hkey
    · simp [ihs hkey]
    · simp [ih hkey]
  | _ =>
    -- What stands between brackets or around an operator has the fields of its parts.
    simp only [Phrase.fieldRoots, Expr.fieldRoots, List.mem_append] at *
    grind

theorem DerivesComparisons.identifier_mem {ts : List Lexeme} {e : Expr}
    (h : DerivesComparisons ts e) {key : String} (hkey : key ∈ e.fieldRoots) :
    .identifier key ∈ ts := by
  induction h with
  | comparison ht h =>
    refine List.mem_cons_of_mem _ (h.identifier_mem ?_)
    simpa [Expr.fieldRoots, Phrase.fieldRoots] using hkey
  | connected hop htm hleft hright ihleft ihright =>
    simp only [Expr.fieldRoots, List.mem_append] at *
    grind

theorem DerivesCell.identifier_mem {ts : List Lexeme} {e : Expr} (h : DerivesCell ts e)
    {key : String} (hkey : key ∈ e.fieldRoots) : .identifier key ∈ ts := by
  induction h with
  | comparisons h => exact h.identifier_mem hkey
  | membership hop h =>
    refine List.mem_append_right _ (h.identifier_mem ?_)
    simpa [Expr.fieldRoots, Phrase.fieldRoots] using hkey
  | expression hd h =>
    rw [Expr.fieldRoots_testOf] at hkey
    exact h.identifier_mem hkey
  | alternatives hleft hright ihleft ihright =>
    simp only [Expr.fieldRoots, List.mem_append] at *
    grind

theorem Lexer.dollar_notMem {source : String} {tokens : List Token}
    (h : Lexer.tokens source = .ok tokens) : .identifier "$" ∉ tokens.map Token.lexeme := by
  obtain ⟨ts, hts, rfl⟩ := tokens_eq_ok_iff.1 h
  intro hmem
  simp only [List.map_append, List.map_cons, List.map_nil, List.mem_append, List.mem_singleton,
    reduceCtorEq, or_false] at hmem
  refine hts.forall_lexeme (P := (· ≠ .identifier "$")) (fun hbegins ht => ?_) _ hmem rfl
  obtain ⟨hletter, hhead⟩ := hbegins.isLetter_of_identifier ht
  obtain rfl := Option.some.inj hhead
  exact absurd hletter (by decide +kernel)

namespace Expr

theorem dollar_notMem_fieldRoots {source : String} {e : Expr}
    (h : Expr.parse source = .ok e ∨ Expr.parseCell source = .ok e) : "$" ∉ e.fieldRoots := by
  rcases h with h | h
  · obtain ⟨tokens, ts, d, htokens, hlexemes, -, hderives⟩ := derives_of_parse h
    refine fun hkey => Lexer.dollar_notMem htokens ?_
    rw [hlexemes]
    exact List.mem_append_left _ (hderives.identifier_mem hkey)
  · rcases derives_of_parseCell h with ⟨rfl, -⟩ | ⟨tokens, ts, htokens, hlexemes, hderives⟩
    · exact nofun
    · refine fun hkey => Lexer.dollar_notMem htokens ?_
      rw [hlexemes]
      exact List.mem_append_left _ (hderives.identifier_mem hkey)

/-- An expression sees no more than it mentions: the members of the context that its fields begin
with, the element and, if `$` is mentioned, the subject. So the subject does not matter to one that
does not mention it, and to a parsed one a subject that is bound is as good as a member `$`. -/
theorem eval_sees_mentioned (e : Expr) :
    (∀ s s' : Scope, s'.element? = s.element? →
      (∀ key ∈ e.fieldRoots, s'.root.get? key = s.root.get? key) →
      (e.mentionsSubject → s'.subject = s.subject) → e.eval s' = e.eval s) ∧
    (e.mentionsSubject = false → ∀ (s : Scope) (subject? : Option Value),
      e.eval { s with subject? } = e.eval s) ∧
    (∀ source, Expr.parse source = .ok e ∨ Expr.parseCell source = .ok e →
      ∀ (root root' : Value) (v : Value) (element? : Option Value), root'.get? "$" = some v →
        (∀ key, key ≠ "$" → root'.get? key = root.get? key) →
        e.eval ⟨root', none, element?⟩ = e.eval ⟨root, some v, element?⟩) := by
  refine ⟨fun s s' helement hroots hsubject => ?_, fun hmentioned s subject? => ?_,
    fun source hparse root root' v element? hdollar hothers => ?_⟩
  · exact eval_of_alike e ⟨helement, hroots, hsubject⟩
  · exact eval_of_alike e ⟨rfl, fun _ _ => rfl, fun h => by rw [hmentioned] at h; cases h⟩
  · refine eval_of_alike e ⟨rfl, fun key hkey => hothers key ?_, fun _ => ?_⟩
    · rintro rfl
      exact dollar_notMem_fieldRoots hparse hkey
    · rw [Scope.subject, Scope.subject, hdollar]
      rfl

def limitContext : Value :=
  .object [("limit", .number 3)]

def limitContextWithSubject : Value :=
  .object [("$", .number 5), ("limit", .number 3)]

theorem limit_sees_mentioned :
    (∃ e, Expr.parse "$ > limit" = .ok e ∧ e.eval ⟨limitContextWithSubject, none, none⟩ =
      e.eval ⟨limitContext, some (.number 5), none⟩) ∧
    (field ["limit"]).eval (.ofRoot limitContextWithSubject) =
      (field ["limit"]).eval (.ofRoot limitContext) ∧
    (field ["limit"]).eval ⟨limitContext, some (.number 5), none⟩ =
      (field ["limit"]).eval (.ofRoot limitContext) := by
  have hmembers (key : String) (hkey : key ≠ "$") :
      limitContextWithSubject.get? key = limitContext.get? key :=
    if_neg hkey.symm
  refine ⟨?_, ?_, ?_⟩
  · have hok : (Expr.parse "$ > limit").isOk := by decide +kernel
    cases hparse : Expr.parse "$ > limit" with
    | error x =>
      rw [hparse] at hok
      cases hok
    | ok e =>
      exact ⟨e, rfl, (eval_sees_mentioned e).2.2 "$ > limit" (.inl hparse) limitContext
        limitContextWithSubject (.number 5) none rfl hmembers⟩
  · refine (eval_sees_mentioned (field ["limit"])).1 _ _ rfl (fun key hkey => ?_) nofun
    obtain rfl : key = "limit" := by simpa [fieldRoots] using hkey
    rfl
  · exact (eval_sees_mentioned (field ["limit"])).2.1 rfl (.ofRoot limitContext) (some (.number 5))

end Expr
end RuleGraph

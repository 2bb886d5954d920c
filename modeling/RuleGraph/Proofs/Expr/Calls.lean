import RuleGraph.Proofs.Expr.Finite
import RuleGraph.Proofs.Expr.Evaluation
import RuleGraph.Proofs.Folding.Expression
import RuleGraph.Proofs.Folding.NormalForm
import RuleGraph.Proofs.Parsing.Soundness
import RuleGraph.Proofs.Template.Splitting
/-!
# The number of arguments

A call is only parsed if its function accepts the number of its arguments. Folding keeps it, so that
evaluation never looks for an argument that is not there and never meets a function in the place of
another kind of function.
-/
namespace RuleGraph

namespace Expr

/-- Whether an expression is no call or one with as many arguments as its function takes. -/
def fits : Expr → Bool
  | .call f args => f.accepts args.length
  | _ => true

/-- Every call in an expression has a number of arguments that its function accepts. -/
def CallsFit (e : Expr) : Prop :=
  ∀ n ∈ e.nodes, n.fits

theorem callsFit_negated {e : Expr} (he : e.CallsFit) : (Parser.negated e).CallsFit := by
  unfold Parser.negated
  split
  · exact List.forall_mem_singleton.2 rfl
  · exact List.forall_mem_cons.2 ⟨rfl, he⟩

theorem callsFit_memberOf {e : Expr} (he : e.CallsFit) (name : String) :
    (Parser.memberOf e name).CallsFit := by
  unfold Parser.memberOf
  split
  · exact List.forall_mem_singleton.2 rfl
  · exact List.forall_mem_cons.2
      ⟨rfl, List.forall_mem_append.2 ⟨he, List.forall_mem_singleton.2 rfl⟩⟩

theorem callsFit_atom? {t : Lexeme} {e : Expr} (h : Parser.atom? t = some e) : e.CallsFit := by
  cases t <;> cases h <;> exact List.forall_mem_singleton.2 rfl

end Expr

def Phrase.nodes : Phrase → List Expr
  | .expression _ e => e.nodes
  | .items es => Expr.allNodes es
  | .entries es => Expr.entriesNodes es

/-- The parser checks each call once it has all arguments. -/
theorem Derives.fits_of_mem_nodes {d : Nat} {ts : List Lexeme} {phrase : Phrase}
    (h : Derives d ts phrase) : ∀ n ∈ phrase.nodes, n.fits := by
  induction h with
  | tighter L h ih => exact ih
  | atom h => exact Expr.callsFit_atom? h
  | parentheses h ih => exact ih
  | member name h ih => exact Expr.callsFit_memberOf ih name
  | negate h ih => exact Expr.callsFit_negated ih
  | emptyCall hname hcount => exact List.forall_mem_singleton.2 hcount
  | call hname hcount h ih => exact List.forall_mem_cons.2 ⟨hcount, ih⟩
  | item h ih => simpa [Phrase.nodes, Expr.allNodes] using ih
  | entry hkey h ih => simpa [Phrase.nodes, Expr.entriesNodes] using ih
  | moreItems hs h ihs ih =>
    simp only [Phrase.nodes, Expr.allNodes_append, Expr.allNodes, List.append_nil]
    exact List.forall_mem_append.2 ⟨ihs, ih⟩
  | moreEntries hs hkey h ihs ih =>
    simp only [Phrase.nodes, Expr.entriesNodes_append, Expr.entriesNodes, List.append_nil]
    exact List.forall_mem_append.2 ⟨ihs, ih⟩
  | _ =>
    -- Nothing else is a call.
    simp only [Phrase.nodes, Expr.nodes, Expr.allNodes, Expr.entriesNodes, Expr.fits,
      List.forall_mem_cons, List.forall_mem_append] at *
    grind

namespace Expr

theorem callsFit_of_parse {source : String} {e : Expr} (h : parse source = .ok e) : e.CallsFit := by
  obtain ⟨_, _, _, -, -, -, hderives⟩ := derives_of_parse h
  exact hderives.fits_of_mem_nodes

theorem callsFit_binary {left right : Expr} {op : Operator} (hleft : left.CallsFit)
    (hright : right.CallsFit) : (binary left op right).CallsFit :=
  List.forall_mem_cons.2 ⟨rfl, List.forall_mem_append.2 ⟨hleft, hright⟩⟩

theorem callsFit_subject : subject.CallsFit :=
  List.forall_mem_singleton.2 rfl

theorem callsFit_testOf {e : Expr} (he : e.CallsFit) : (Parser.testOf e).CallsFit := by
  unfold Parser.testOf
  split
  · exact he
  · split <;> exact callsFit_binary callsFit_subject he

end Expr

theorem DerivesComparisons.callsFit {ts : List Lexeme} {e : Expr} (h : DerivesComparisons ts e) :
    e.CallsFit := by
  induction h with
  | comparison ht h => exact Expr.callsFit_binary Expr.callsFit_subject h.fits_of_mem_nodes
  | connected hop htm hleft hright ihleft ihright => exact Expr.callsFit_binary ihleft ihright

theorem DerivesCell.callsFit {ts : List Lexeme} {e : Expr} (h : DerivesCell ts e) : e.CallsFit := by
  induction h with
  | comparisons h => exact h.callsFit
  | membership hop h => exact Expr.callsFit_binary Expr.callsFit_subject h.fits_of_mem_nodes
  | expression hd h => exact Expr.callsFit_testOf h.fits_of_mem_nodes
  | alternatives hleft hright ihleft ihright => exact Expr.callsFit_binary ihleft ihright

theorem Expr.callsFit_of_parseCell {source : String} {e : Expr} (h : parseCell source = .ok e) :
    e.CallsFit := by
  rcases derives_of_parseCell h with ⟨rfl, -⟩ | ⟨_, _, -, -, hderives⟩
  · exact List.forall_mem_singleton.2 rfl
  · exact hderives.callsFit

namespace Expr

/-- Folding keeps the number of arguments of each call that it does not drop. -/
theorem callsFit_fold (e : Expr) (h : e.CallsFit) : e.fold.CallsFit := by
  have hparts (m : Expr) (hm : m.fits) : m.foldParts.fits := by
    cases m with
    | call f args =>
      have hlength := length_foldAll args
      simpa only [foldParts, fits, hlength] using hm
    | _ => rfl
  have hleaves : Leaves (·.fits) (·.fits) := ⟨fun _ => rfl, fun m hm _ => hparts m hm⟩
  exact hleaves.forall_nodes e h

end Expr

/-- Whether the arguments of a function are wrong whatever their values are. -/
def ArgumentFault.isMiscall : ArgumentFault → Bool
  | .count _ | .noClosure | .notClosure | .missing _ => true
  | .kind _ _ | .notNumber _ => false

def EvalError.isMiscall : EvalError → Bool
  | .argument _ fault => fault.isMiscall
  | _ => false

/-- A step does not fail because of how a function was called. -/
abbrev CallsWell {α : Type} (x : Except EvalError α) : Prop :=
  FailsOnly x (·.isMiscall = false)

theorem callsWell_expectBool (operator : String) (v : Value) :
    CallsWell (expectBool operator v) := by
  unfold expectBool
  split <;> first | exact .ok _ | exact .error rfl

theorem Value.callsWell_ofFinite (x : Float) : CallsWell (Value.ofFinite x) := by
  unfold Value.ofFinite
  split <;> first | exact .ok _ | exact .error rfl

theorem Value.callsWell_field (root : Value) (path : List String) :
    CallsWell (root.field path) := by
  unfold Value.field
  split
  · exact .ok _
  · split <;> first | exact .ok _ | exact .error rfl

namespace Operation

theorem callsWell_arithmetic (op : Operator) (v w : Value) : CallsWell (arithmetic op v w) := by
  unfold arithmetic
  split
  · split
    · exact .error rfl
    · exact Value.callsWell_ofFinite _
  · split <;> first | exact .ok _ | exact .error rfl

theorem callsWell_compare (op : Operator) (v w : Value) : CallsWell (compare op v w) := by
  unfold compare
  split
  · exact .ok _
  · exact .ok _
  · split <;> first | exact .ok _ | exact .error rfl

theorem callsWell_contains (op : Operator) (needle v : Value) :
    CallsWell (contains op needle v) := by
  unfold contains
  split
  · exact .ok _
  · split <;> exact .ok _
  · split <;> first | exact .ok _ | exact .error rfl
  · exact .ok _
  · exact .error rfl

theorem callsWell_inInterval (needle start stop : Value) (i j : Bool) :
    CallsWell (inInterval needle start stop i j) := by
  unfold inInterval
  split
  · split <;> first | exact .ok _ | exact .error rfl
  · exact .error rfl

theorem callsWell_unary (op : UnaryOperator) (v : Value) : CallsWell (unary op v) := by
  unfold unary
  split <;> first | exact .ok _ | exact .error rfl

end Operation

namespace Builtin
variable {f : Builtin} {args elements : List Value}

theorem callsWell_text (v : Value) : CallsWell (f.text v) := by
  cases v <;> first | exact .ok _ | exact .error rfl

theorem callsWell_numeral (v : Value) : CallsWell (f.numeral v) := by
  cases v <;> first | exact .ok _ | exact .error rfl

theorem callsWell_numerals (args : List Value) : CallsWell (f.numerals args) := by
  unfold numerals
  split <;> exact .mapM fun v _ => callsWell_numeral v

theorem callsWell_items (v : Value) : CallsWell (f.items v) := by
  cases v <;> first | exact .ok _ | exact .error rfl

theorem callsWell_size (v : Value) : CallsWell (f.size v) := by
  cases v <;> first | exact .ok _ | exact .error rfl

theorem callsWell_holds (v part : Value) : CallsWell (f.holds v part) := by
  cases v with
  | string s => exact .bind (callsWell_text part) fun _ _ => .ok _
  | array items => exact .ok _
  | _ => exact .error rfl

theorem callsWell_membersOf (v : Value) : CallsWell (f.membersOf v) := by
  cases v <;> first | exact .ok _ | exact .error rfl

theorem callsWell_elements (v : Value) : CallsWell (f.elements v) := by
  cases v <;> first | exact .ok _ | exact .error rfl

theorem callsWell_truth (v : Value) : CallsWell (f.truth v) := by
  cases v <;> first | exact .ok _ | exact .error rfl

theorem callsWell_toNumber (v : Value) : CallsWell (f.toNumber v) := by
  unfold toNumber
  split
  · exact .ok _
  · exact .ok _
  · split
    · split <;> first | exact .ok _ | exact .error rfl
    · exact .error rfl
  · exact .error rfl

theorem callsWell_toBool (v : Value) : CallsWell (f.toBool v) := by
  unfold toBool
  split <;> first | exact .ok _ | exact .error rfl

/-- A function that has the arguments that it takes finds each of them. -/
theorem callsWell_apply (hcount : f.accepts args.length) (hf : f.isClosure = false) :
    CallsWell (f.apply args) := by
  cases f with
  | filter | map | some | all | none | count => cases hf
  | min | max => exact .bind (callsWell_numerals args) fun _ _ => .ok _
  | sum => exact .bind (callsWell_numerals args) fun _ _ => Value.callsWell_ofFinite _
  | avg =>
    refine .bind (callsWell_numerals args) fun xs _ => ?_
    split
    · exact .ok _
    · exact Value.callsWell_ofFinite _
  | round =>
    match args with
    | [] => cases hcount
    | [v] => exact .bind (callsWell_numeral v) fun _ _ => .ok _
    | v :: w :: _ =>
      exact .bind (callsWell_numeral v) fun _ _ => .bind (callsWell_numeral w) fun _ _ => .ok _
  | contains =>
    obtain ⟨v, w, rfl⟩ := eq_pair_of_accepts rfl hcount
    exact .bind (callsWell_holds v w) fun _ _ => .ok _
  | startsWith | endsWith | split =>
    obtain ⟨v, w, rfl⟩ := eq_pair_of_accepts rfl hcount
    exact .bind (callsWell_text v) fun _ _ => .bind (callsWell_text w) fun _ _ => .ok _
  | join =>
    obtain ⟨v, w, rfl⟩ := eq_pair_of_accepts rfl hcount
    exact .bind (callsWell_items v) fun _ _ => .bind (callsWell_text w) fun _ _ => .ok _
  | len =>
    obtain ⟨v, rfl⟩ := eq_singleton_of_accepts rfl hcount
    exact .bind (callsWell_size v) fun _ _ => .ok _
  | upper | lower | trim =>
    obtain ⟨v, rfl⟩ := eq_singleton_of_accepts rfl hcount
    exact .bind (callsWell_text v) fun _ _ => .ok _
  | abs | floor | ceil =>
    obtain ⟨v, rfl⟩ := eq_singleton_of_accepts rfl hcount
    exact .bind (callsWell_numeral v) fun _ _ => .ok _
  | number =>
    obtain ⟨v, rfl⟩ := eq_singleton_of_accepts rfl hcount
    exact callsWell_toNumber v
  | bool =>
    obtain ⟨v, rfl⟩ := eq_singleton_of_accepts rfl hcount
    exact callsWell_toBool v
  | string | isNull =>
    obtain ⟨v, rfl⟩ := eq_singleton_of_accepts rfl hcount
    exact .ok _
  | keys | values =>
    obtain ⟨v, rfl⟩ := eq_singleton_of_accepts rfl hcount
    exact .bind (callsWell_membersOf v) fun _ _ => .ok _
  | flatten =>
    obtain ⟨v, rfl⟩ := eq_singleton_of_accepts rfl hcount
    exact .bind (callsWell_items v) fun _ _ => .ok _

variable {run : Value → Except EvalError Value} {test : Value → Except EvalError Bool}

theorem callsWell_keep (h : ∀ v, CallsWell (test v)) (elements : List Value) :
    CallsWell (keep test elements) := by
  induction elements with
  | nil => exact .ok _
  | cons v rest ih => exact .bind (h v) fun _ _ => .bind ih fun _ _ => .ok _

theorem callsWell_anyM (h : ∀ v, CallsWell (test v)) (elements : List Value) :
    CallsWell (elements.anyM test) := by
  induction elements with
  | nil => exact .ok _
  | cons v rest ih =>
    rw [List.anyM_cons]
    refine .bind (h v) fun b _ => ?_
    cases b with
    | true => exact .ok _
    | false => exact ih

theorem callsWell_allM (h : ∀ v, CallsWell (test v)) (elements : List Value) :
    CallsWell (elements.allM test) := by
  induction elements with
  | nil => exact .ok _
  | cons v rest ih =>
    rw [List.allM_cons]
    refine .bind (h v) fun b _ => ?_
    cases b with
    | true => exact ih
    | false => exact .ok _

theorem callsWell_applyClosure (hf : f.isClosure) (hrun : ∀ v, CallsWell (run v))
    (elements : List Value) : CallsWell (f.applyClosure run elements) := by
  have htest (v : Value) : CallsWell (do f.truth (← run v)) :=
    .bind (hrun v) fun w _ => callsWell_truth w
  cases f with
  | map => exact .bind (.mapM fun v _ => hrun v) fun _ _ => .ok _
  | filter => exact .bind (callsWell_keep htest elements) fun _ _ => .ok _
  | count =>
    rw [applyClosure_count]
    exact .bind (callsWell_keep htest elements) fun _ _ => .ok _
  | some => exact .bind (callsWell_anyM htest elements) fun _ _ => .ok _
  | none =>
    rw [applyClosure_none]
    exact .bind (callsWell_anyM htest elements) fun _ _ => .ok _
  | all => exact .bind (callsWell_allM htest elements) fun _ _ => .ok _
  | _ => cases hf

end Builtin

namespace Expr

theorem callsWell_binary {left right : Expr} {op : Operator} {s : Scope}
    (hleft : CallsWell (left.eval s)) (hright : CallsWell (right.eval s))
    (hends : ∀ start stop i j, right = .interval start stop i j →
      CallsWell (start.eval s) ∧ CallsWell (stop.eval s)) :
    CallsWell ((binary left op right).eval s) := by
  cases op with
  | add | sub | mul | div | mod | pow =>
    exact .bind hleft fun v _ => .bind hright fun w _ => Operation.callsWell_arithmetic _ v w
  | eq | ne | gt | ge | lt | le =>
    exact .bind hleft fun v _ => .bind hright fun w _ =>
      .bind (Operation.callsWell_compare _ v w) fun _ _ => .ok _
  | and | or =>
    refine .bind hleft fun v _ => .bind (callsWell_expectBool _ v) fun b _ => ?_
    split <;> first
      | exact .ok _
      | exact .bind hright fun w _ => .bind (callsWell_expectBool _ w) fun _ _ => .ok _
  | member | notMember =>
    cases right with
    | interval start stop i j =>
      obtain ⟨hstart, hstop⟩ := hends start stop i j rfl
      exact .bind hleft fun needle _ => .bind hstart fun low _ => .bind hstop fun high _ =>
        .bind (Operation.callsWell_inInterval needle low high i j) fun _ _ => .ok _
    | _ =>
      exact .bind hleft fun needle _ => .bind hright fun v _ =>
        .bind (Operation.callsWell_contains _ needle v) fun _ _ => .ok _
  | coalesce =>
    rw [eval]
    split
    · exact hright
    · exact hright
    · exact hleft

mutual

/-- If every call has the arguments that its function takes, none goes wrong for the lack of one. -/
theorem callsWell_eval (e : Expr) (s : Scope) (h : e.CallsFit) : CallsWell (e.eval s) := by
  match e with
  | .literal v => exact .ok _
  | .field path => exact s.root.callsWell_field path
  | .subject =>
    rw [eval, Scope.subject]
    split <;> first | exact .ok _ | exact .error rfl
  | .element =>
    rw [eval, Scope.element]
    split <;> first | exact .ok _ | exact .error rfl
  | .index base key =>
    obtain ⟨hbase, hkey⟩ := List.forall_mem_append.1 (List.forall_mem_cons.1 h).2
    exact .bind (callsWell_eval base s hbase) fun _ _ =>
      .bind (callsWell_eval key s hkey) fun _ _ => .ok _
  | .unary op operand =>
    exact .bind (callsWell_eval operand s (List.forall_mem_cons.1 h).2) fun v _ =>
      Operation.callsWell_unary op v
  | .binary left op right =>
    obtain ⟨hleft, hright⟩ := List.forall_mem_append.1 (List.forall_mem_cons.1 h).2
    refine callsWell_binary (callsWell_eval left s hleft) (callsWell_eval right s hright) ?_
    cases hi : right.isInterval with
    | false =>
      rintro start stop i j rfl
      cases hi
    | true =>
      match right with
      | .interval start stop i j =>
        obtain ⟨hstart, hstop⟩ := List.forall_mem_append.1 (List.forall_mem_cons.1 hright).2
        rintro _ _ _ _ ⟨⟩
        exact ⟨callsWell_eval start s hstart, callsWell_eval stop s hstop⟩
  | .ternary condition yes no =>
    obtain ⟨hbefore, hno⟩ := List.forall_mem_append.1 (List.forall_mem_cons.1 h).2
    obtain ⟨hcondition, hyes⟩ := List.forall_mem_append.1 hbefore
    refine .bind (callsWell_eval condition s hcondition) fun v _ =>
      .bind (callsWell_expectBool _ v) fun b _ => ?_
    cases b with
    | true => exact callsWell_eval yes s hyes
    | false => exact callsWell_eval no s hno
  | .array items =>
    exact .bind (callsWell_evalAll items s (List.forall_mem_cons.1 h).2) fun _ _ => .ok _
  | .object entries =>
    exact .bind (callsWell_evalEntries entries s (List.forall_mem_cons.1 h).2) fun _ _ => .ok _
  | .interval _ _ _ _ => exact .error rfl
  | .call f args =>
    obtain ⟨hcount, hargs⟩ := List.forall_mem_cons.1 h
    have hcount : f.accepts args.length := hcount
    cases hf : f.isClosure with
    | false =>
      rw [eval_call_of_accepts hf hcount]
      refine .bind (callsWell_evalAll args s hargs) fun vs hvs => ?_
      rw [← length_of_evalAll hvs] at hcount
      exact Builtin.callsWell_apply hcount hf
    | true =>
      match args with
      | [collection, body] =>
        obtain ⟨hcollection, hrest⟩ := List.forall_mem_append.1 hargs
        obtain ⟨hbody, -⟩ := List.forall_mem_append.1 hrest
        rw [eval_call_of_isClosure hf]
        refine .bind (callsWell_eval collection s hcollection) fun v _ =>
          .bind (Builtin.callsWell_elements v) fun elements _ => ?_
        exact Builtin.callsWell_applyClosure hf (fun x => callsWell_eval body _ hbody) elements
      | [] | [_] | _ :: _ :: _ :: _ =>
        exact absurd (Builtin.eq_two_of_accepts hf hcount) (by simp)
termination_by structural e

theorem callsWell_evalAll (es : List Expr) (s : Scope) (h : ∀ n ∈ allNodes es, n.fits) :
    CallsWell (evalAll es s) := by
  match es with
  | [] => exact .ok _
  | e :: rest =>
    obtain ⟨he, hrest⟩ := List.forall_mem_append.1 h
    exact .bind (callsWell_eval e s he) fun _ _ =>
      .bind (callsWell_evalAll rest s hrest) fun _ _ => .ok _
termination_by structural es

theorem callsWell_evalEntries (entries : List (String × Expr)) (s : Scope)
    (h : ∀ n ∈ entriesNodes entries, n.fits) : CallsWell (evalEntries entries s) := by
  match entries with
  | [] => exact .ok _
  | (_, e) :: rest =>
    obtain ⟨he, hrest⟩ := List.forall_mem_append.1 h
    exact .bind (callsWell_eval e s he) fun _ _ =>
      .bind (callsWell_evalEntries rest s hrest) fun _ _ => .ok _
termination_by structural entries

end

/-- An expression of a text, of the text of a cell, or in a span of a template. -/
def IsWritten (source : String) (e : Expr) : Prop :=
  parse source = .ok e ∨ parseCell source = .ok e ∨
    ∃ template, Template.parse source = .ok template ∧ .span e ∈ template

theorem IsWritten.callsFit {source : String} {e : Expr} (h : IsWritten source e) : e.CallsFit := by
  rcases h with h | h | ⟨template, h, he⟩
  · exact callsFit_of_parse h
  · exact callsFit_of_parseCell h
  · obtain ⟨part, hpart⟩ := Template.exists_parse_of_span_mem h he
    exact callsFit_of_parse hpart

/-- Every call in an expression that was parsed has as many arguments as its function takes, and so
it is after folding. In no scope does the one or the other fail because of the number of arguments,
for an argument that is not there, or for a function in the place of another kind of function. -/
theorem calls_fit_once_parsed {source : String} {e : Expr} (h : IsWritten source e) :
    (∀ f args, call f args ∈ e.nodes ∨ call f args ∈ e.fold.nodes → f.accepts args.length) ∧
      ∀ s f fault, e.eval s = .error (.argument f fault) ∨
        e.fold.eval s = .error (.argument f fault) → fault.isMiscall = false := by
  have hfit := h.callsFit
  have hfold := callsFit_fold e hfit
  refine ⟨?_, ?_⟩
  · rintro f args (hf | hf)
    · exact hfit _ hf
    · exact hfold _ hf
  · rintro s f fault (hs | hs)
    · exact callsWell_eval e s hfit _ hs
    · exact callsWell_eval e.fold s hfold _ hs

theorem count_calls_fit_once_parsed :
    ∃ e, IsWritten "count(items, len(#) > 3)" e ∧
      (∀ f args, call f args ∈ e.nodes ∨ call f args ∈ e.fold.nodes → f.accepts args.length) ∧
      ∀ s f fault, e.eval s = .error (.argument f fault) ∨
        e.fold.eval s = .error (.argument f fault) → fault.isMiscall = false := by
  have hok : (parse "count(items, len(#) > 3)").isOk := by decide +kernel
  cases hparse : parse "count(items, len(#) > 3)" with
  | error x =>
    rw [hparse] at hok
    cases hok
  | ok e => exact ⟨e, .inl hparse, calls_fit_once_parsed (.inl hparse)⟩

end Expr
end RuleGraph

import RuleGraph.Proofs.Expr.Evaluation
import RuleGraph.Proofs.Expr.Finite
import RuleGraph.Proofs.Parsing.Soundness
import RuleGraph.Proofs.Value.Ordered
/-!
# Results with their members in order

In a scope of values whose members are in order, an expression whose literals are of this kind has
such a value. The literals of a parsed expression have no members at all.
-/
namespace RuleGraph

namespace Expr

mutual

/-- The literals of an expression, from left to right. -/
def literals : Expr → List Value
  | .literal v => [v]
  | .field _ | .subject | .element => []
  | .index base key => base.literals ++ key.literals
  | .binary left _ right => left.literals ++ right.literals
  | .unary _ operand => operand.literals
  | .call _ args => allLiterals args
  | .ternary condition yes no => condition.literals ++ yes.literals ++ no.literals
  | .array items => allLiterals items
  | .object entries => entriesLiterals entries
  | .interval start stop _ _ => start.literals ++ stop.literals
termination_by structural e => e

def allLiterals : List Expr → List Value
  | [] => []
  | e :: rest => e.literals ++ allLiterals rest
termination_by structural es => es

def entriesLiterals : List (String × Expr) → List Value
  | [] => []
  | (_, e) :: rest => e.literals ++ entriesLiterals rest
termination_by structural entries => entries

end

theorem allLiterals_append (es es' : List Expr) :
    allLiterals (es ++ es') = allLiterals es ++ allLiterals es' := by
  induction es with
  | nil => rfl
  | cons e rest ih => simp [allLiterals, ih]

theorem entriesLiterals_append (entries entries' : List (String × Expr)) :
    entriesLiterals (entries ++ entries') =
      entriesLiterals entries ++ entriesLiterals entries' := by
  induction entries with
  | nil => rfl
  | cons entry rest ih => simp [entriesLiterals, ih]

theorem isScalar_of_literals_negated {e : Expr} (he : ∀ v ∈ e.literals, v.isScalar) :
    ∀ v ∈ (Parser.negated e).literals, v.isScalar := by
  unfold Parser.negated
  split
  · exact List.forall_mem_singleton.2 rfl
  · exact he

theorem isScalar_of_literals_memberOf {e : Expr} (he : ∀ v ∈ e.literals, v.isScalar)
    (name : String) : ∀ v ∈ (Parser.memberOf e name).literals, v.isScalar := by
  unfold Parser.memberOf
  split
  · exact nofun
  · exact List.forall_mem_append.2 ⟨he, List.forall_mem_singleton.2 rfl⟩

end Expr

def Phrase.literals : Phrase → List Value
  | .expression _ e => e.literals
  | .items es => Expr.allLiterals es
  | .entries es => Expr.entriesLiterals es

theorem Parser.isScalar_of_atom? {t : Lexeme} {e : Expr} (h : Parser.atom? t = some e) :
    ∀ v ∈ e.literals, v.isScalar := by
  cases t <;> cases h <;> first | exact List.forall_mem_singleton.2 rfl | exact nofun

theorem Derives.isScalar_of_literals {d : Nat} {ts : List Lexeme} {phrase : Phrase}
    (h : Derives d ts phrase) : ∀ v ∈ phrase.literals, v.isScalar := by
  induction h with
  | tighter L h ih => exact ih
  | atom h => exact Parser.isScalar_of_atom? h
  | name | emptyArray | emptyObject | emptyCall => exact nofun
  | member name h ih => exact Expr.isScalar_of_literals_memberOf ih name
  | negate h ih => exact Expr.isScalar_of_literals_negated ih
  | item h ih => simpa [Phrase.literals, Expr.allLiterals] using ih
  | entry hkey h ih => simpa [Phrase.literals, Expr.entriesLiterals] using ih
  | moreItems hs h ihs ih =>
    simp only [Phrase.literals, Expr.allLiterals_append, Expr.allLiterals, List.append_nil]
    exact List.forall_mem_append.2 ⟨ihs, ih⟩
  | moreEntries hs hkey h ihs ih =>
    simp only [Phrase.literals, Expr.entriesLiterals_append, Expr.entriesLiterals, List.append_nil]
    exact List.forall_mem_append.2 ⟨ihs, ih⟩
  | _ =>
    -- What stands between brackets or around an operator has the literals of its parts.
    simp only [Phrase.literals, Expr.literals, List.forall_mem_append] at *
    grind

theorem Expr.isScalar_of_parse {source : String} {e : Expr} (h : Expr.parse source = .ok e) :
    ∀ v ∈ e.literals, v.isScalar := by
  obtain ⟨tokens, ts, d, -, -, -, hderives⟩ := derives_of_parse h
  exact hderives.isScalar_of_literals

theorem Value.ordered_of_isScalar {v : Value} (h : v.isScalar) : v.Ordered := by
  cases v with
  | array | object => cases h
  | null => exact .null
  | bool b => exact .bool b
  | number x => exact .number x
  | string s => exact .string s

theorem Value.ordered_ofFinite (x : Float) : Ensures (Value.ofFinite x) Ordered := by
  unfold Value.ofFinite
  split
  · exact .ok (.number x)
  · exact .error _

namespace Operation

theorem ordered_arithmetic (op : Operator) (v w : Value) :
    Ensures (arithmetic op v w) Value.Ordered := by
  unfold arithmetic
  split
  · split
    · exact .error _
    · exact Value.ordered_ofFinite _
  · split
    · exact .ok (.string _)
    · exact .error _

theorem ordered_unary (op : UnaryOperator) (v : Value) : Ensures (unary op v) Value.Ordered := by
  unfold unary
  split
  · exact .ok (.bool _)
  · exact .ok (.number _)
  · exact .error _
  · exact .error _

end Operation

namespace Builtin
variable {f : Builtin} {v : Value} {args elements : List Value}

theorem ordered_items (hv : v.Ordered) : Ensures (f.items v) fun vs => ∀ v ∈ vs, v.Ordered := by
  cases v with
  | array items => exact .ok hv.items
  | _ => exact .error _

theorem ordered_elements (hv : v.Ordered) :
    Ensures (f.elements v) fun vs => ∀ v ∈ vs, v.Ordered := by
  cases v with
  | array items => exact .ok hv.items
  | null => exact .ok (List.forall_mem_nil _)
  | _ => exact .error _

theorem ordered_membersOf (hv : v.Ordered) :
    Ensures (f.membersOf v) fun members => ∀ m ∈ members, m.2.Ordered := by
  cases v with
  | object members => exact .ok hv.members
  | _ => exact .error _

theorem ordered_flattened (hv : v.Ordered) : ∀ u ∈ flattened v, u.Ordered := by
  cases v with
  | array items => exact hv.items
  | _ => exact List.forall_mem_singleton.2 hv

theorem ordered_toNumber (v : Value) : Ensures (f.toNumber v) Value.Ordered := by
  unfold toNumber
  split
  · exact .ok (.number _)
  · exact .ok (.number _)
  · split
    · split
      · exact .ok (.number _)
      · exact .error _
    · exact .error _
  · exact .error _

theorem ordered_toBool (v : Value) : Ensures (f.toBool v) Value.Ordered := by
  unfold toBool
  split <;> first | exact .ok (.bool _) | exact .error _

theorem ordered_pick (choose : Float → Float → Float) (xs : List Float) :
    (pick choose xs).Ordered := by
  cases xs with
  | nil => exact .null
  | cons x rest => exact .number _

/-- What is neither a text, a truth value nor a number has its parts from the arguments. -/
theorem ordered_apply (hcount : f.accepts args.length) (hargs : ∀ a ∈ args, a.Ordered) :
    Ensures (f.apply args) Value.Ordered := by
  cases f with
  | len | abs | floor | ceil =>
    obtain ⟨v, rfl⟩ := eq_singleton_of_accepts rfl hcount
    exact .after fun _ => .ok (.number _)
  | round =>
    match args with
    | [v] => exact .after fun _ => .ok (.number _)
    | v :: w :: _ => exact .after fun _ => .after fun _ => .ok (.number _)
    | [] => exact .error _
  | min | max => exact .after fun xs => .ok (ordered_pick _ xs)
  | sum => exact .after fun _ => Value.ordered_ofFinite _
  | avg =>
    refine .after fun xs => ?_
    split
    · exact .ok .null
    · exact Value.ordered_ofFinite _
  | number =>
    obtain ⟨v, rfl⟩ := eq_singleton_of_accepts rfl hcount
    exact ordered_toNumber v
  | bool =>
    obtain ⟨v, rfl⟩ := eq_singleton_of_accepts rfl hcount
    exact ordered_toBool v
  | isNull =>
    obtain ⟨v, rfl⟩ := eq_singleton_of_accepts rfl hcount
    exact .ok (.bool _)
  | contains =>
    obtain ⟨v, w, rfl⟩ := eq_pair_of_accepts rfl hcount
    exact .after fun _ => .ok (.bool _)
  | startsWith | endsWith =>
    obtain ⟨v, w, rfl⟩ := eq_pair_of_accepts rfl hcount
    exact .after fun _ => .after fun _ => .ok (.bool _)
  | upper | lower | trim =>
    obtain ⟨v, rfl⟩ := eq_singleton_of_accepts rfl hcount
    exact .after fun _ => .ok (.string _)
  | string =>
    obtain ⟨v, rfl⟩ := eq_singleton_of_accepts rfl hcount
    exact .ok (.string _)
  | join =>
    obtain ⟨v, w, rfl⟩ := eq_pair_of_accepts rfl hcount
    exact .after fun _ => .after fun _ => .ok (.string _)
  | split =>
    obtain ⟨v, w, rfl⟩ := eq_pair_of_accepts rfl hcount
    exact .after fun _ => .after fun _ => .ok (.strings _)
  | keys =>
    obtain ⟨v, rfl⟩ := eq_singleton_of_accepts rfl hcount
    exact .after fun _ => .ok (.strings _)
  | values =>
    obtain ⟨v, rfl⟩ := eq_singleton_of_accepts rfl hcount
    exact .bind (ordered_membersOf (hargs v List.mem_cons_self)) fun members hmembers =>
      .ok (.array (List.forall_mem_map.2 hmembers))
  | flatten =>
    obtain ⟨v, rfl⟩ := eq_singleton_of_accepts rfl hcount
    refine .bind (ordered_items (hargs v List.mem_cons_self)) fun items hitems =>
      .ok (.array fun u hu => ?_)
    obtain ⟨w, hw, hu⟩ := List.mem_flatMap.1 hu
    exact ordered_flattened (hitems w hw) u hu
  | filter | map | some | all | none | count => exact .error _

theorem ordered_applyClosure {run : Value → Except EvalError Value}
    (helements : ∀ x ∈ elements, x.Ordered)
    (hrun : ∀ x ∈ elements, Ensures (run x) Value.Ordered) :
    Ensures (f.applyClosure run elements) Value.Ordered := by
  cases f with
  | map => exact .bind (.mapM hrun) fun vs hvs => .ok (.array hvs)
  | filter =>
    intro v hv
    obtain ⟨kept, hkept, hv⟩ := bind_eq_ok.1 hv
    cases hv
    exact .array fun x hx => helements x ((keep_sublist hkept).subset hx)
  | count => exact .after fun _ => .ok (.number _)
  | some | all | none => exact .after fun _ => .ok (.bool _)
  | _ => exact .error _

end Builtin

namespace Expr

mutual

theorem ordered_eval (e : Expr) (s : Scope) (he : ∀ v ∈ e.literals, v.Ordered)
    (hs : s.Shows Value.Ordered) : Ensures (e.eval s) Value.Ordered := by
  match e with
  | .literal v => exact .ok (he v List.mem_cons_self)
  | .field path => exact fun v hv => Value.Ordered.hereditary.field hs.root hv
  | .subject => exact fun v hv => hs.of_subject_eq_ok Value.Ordered.hereditary hv
  | .element => exact fun v hv => hs.of_element_eq_ok hv
  | .index base key =>
    obtain ⟨hbase, -⟩ := List.forall_mem_append.1 he
    exact .bind (ordered_eval base s hbase hs) fun v hv =>
      .after fun w => .ok (Value.Ordered.hereditary.index hv w)
  | .unary op operand => exact .after fun v => Operation.ordered_unary op v
  | .binary left op right =>
    obtain ⟨hleft, hright⟩ := List.forall_mem_append.1 he
    exact ensures_binary .bool (Operation.ordered_arithmetic op)
      (fun _ => ordered_eval left s hleft hs) (fun _ _ => ordered_eval right s hright hs)
  | .ternary condition yes no =>
    obtain ⟨hbefore, hno⟩ := List.forall_mem_append.1 he
    obtain ⟨-, hyes⟩ := List.forall_mem_append.1 hbefore
    refine .after fun _ => .after fun b => ?_
    cases b with
    | true => exact ordered_eval yes s hyes hs
    | false => exact ordered_eval no s hno hs
  | .array items =>
    exact .bind (ordered_evalAll items s he hs) fun vs hvs => .ok (.array hvs)
  | .object entries =>
    exact .bind (ordered_evalEntries entries s he hs) fun ms hms => .ok (.record hms)
  | .interval _ _ _ _ => exact .error _
  | .call f args =>
    cases hcount : f.accepts args.length with
    | false =>
      rw [eval_call_of_not_accepts hcount]
      exact .error _
    | true =>
      cases hf : f.isClosure with
      | false =>
        rw [eval_call_of_accepts hf hcount]
        intro v hv
        obtain ⟨vs, hvs, hv⟩ := bind_eq_ok.1 hv
        rw [← length_of_evalAll hvs] at hcount
        exact Builtin.ordered_apply hcount (ordered_evalAll args s he hs vs hvs) v hv
      | true =>
        match args with
        | [collection, body] =>
          obtain ⟨hcollection, hrest⟩ := List.forall_mem_append.1 he
          obtain ⟨hbody, -⟩ := List.forall_mem_append.1 hrest
          rw [eval_call_of_isClosure hf]
          refine .bind (ordered_eval collection s hcollection hs) fun v hv => ?_
          refine .bind (Builtin.ordered_elements hv) fun elements helements => ?_
          refine Builtin.ordered_applyClosure helements fun x hx => ?_
          exact ordered_eval body _ hbody (hs.withElement (helements x hx))
        | [] | [_] | _ :: _ :: _ :: _ =>
          exact absurd (Builtin.eq_two_of_accepts hf hcount) (by simp)
termination_by structural e

theorem ordered_evalAll (es : List Expr) (s : Scope) (hes : ∀ v ∈ allLiterals es, v.Ordered)
    (hs : s.Shows Value.Ordered) : Ensures (evalAll es s) fun vs => ∀ v ∈ vs, v.Ordered := by
  match es with
  | [] => exact .ok (List.forall_mem_nil _)
  | e :: rest =>
    obtain ⟨he, hrest⟩ := List.forall_mem_append.1 hes
    exact .bind (ordered_eval e s he hs) fun v hv =>
      .bind (ordered_evalAll rest s hrest hs) fun vs hvs => .ok (List.forall_mem_cons.2 ⟨hv, hvs⟩)
termination_by structural es

theorem ordered_evalEntries (entries : List (String × Expr)) (s : Scope)
    (hentries : ∀ v ∈ entriesLiterals entries, v.Ordered) (hs : s.Shows Value.Ordered) :
    Ensures (evalEntries entries s) fun ms => ∀ m ∈ ms, m.2.Ordered := by
  match entries with
  | [] => exact .ok (List.forall_mem_nil _)
  | (key, e) :: rest =>
    obtain ⟨he, hrest⟩ := List.forall_mem_append.1 hentries
    exact .bind (ordered_eval e s he hs) fun v hv =>
      .bind (ordered_evalEntries rest s hrest hs) fun ms hms =>
        .ok (List.forall_mem_cons.2 ⟨hv, hms⟩)
termination_by structural entries

end

end Expr
end RuleGraph

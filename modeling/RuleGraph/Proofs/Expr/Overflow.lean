import Mathlib.Tactic.ByContra
import RuleGraph.Proofs.Expr.Evaluation
import RuleGraph.Proofs.Expr.Finite
/-!
# Numbers out of range

In a scope of finite values, an expression of finite literals has a finite value, unless a call
gives a number out of range that is not checked. `Overflows` says which calls do: a number is
rounded to tens, hundreds and so on, and leaves the range when it is scaled back. `LetsThrough` says
how such a number comes into the value of the whole: not through arithmetic, sums and averages,
which check their results.
-/
namespace RuleGraph.Expr

mutual

/-- Whether all literals of an expression are finite. -/
def HasFiniteLiterals : Expr → Prop
  | .literal v => v.isFinite
  | .field _ | .subject | .element => True
  | .index base key => base.HasFiniteLiterals ∧ key.HasFiniteLiterals
  | .binary left _ right => left.HasFiniteLiterals ∧ right.HasFiniteLiterals
  | .unary _ operand => operand.HasFiniteLiterals
  | .call _ args => AllHaveFiniteLiterals args
  | .ternary condition yes no =>
    condition.HasFiniteLiterals ∧ yes.HasFiniteLiterals ∧ no.HasFiniteLiterals
  | .array items => AllHaveFiniteLiterals items
  | .object entries => EntriesHaveFiniteLiterals entries
  | .interval start stop _ _ => start.HasFiniteLiterals ∧ stop.HasFiniteLiterals
termination_by structural e => e

def AllHaveFiniteLiterals : List Expr → Prop
  | [] => True
  | e :: rest => e.HasFiniteLiterals ∧ AllHaveFiniteLiterals rest
termination_by structural es => es

def EntriesHaveFiniteLiterals : List (String × Expr) → Prop
  | [] => True
  | (_, e) :: rest => e.HasFiniteLiterals ∧ EntriesHaveFiniteLiterals rest
termination_by structural entries => entries

end

/-- A call gives a number that is not finite although it is given none. -/
inductive Overflows : Expr → Scope → Prop
  /-- A number that is rounded before the decimal point leaves the range when it is scaled back. -/
  | round {args s x digits} (hargs : evalAll args s = .ok [.number x, .number digits])
      (hx : x.isFinite) (hdigits : Number.toIntWithin 308 digits < 0)
      (hresult : (Builtin.roundTo x digits).isFinite = false) : Overflows (.call .round args) s
  /-- What is counted is more than 64 bits can count. -/
  | size {f args s n} (hf : f = .len ∨ f = .count)
      (hresult : (call f args).eval s = .ok (.number (Float.ofNat n))) (hn : 2 ^ 64 ≤ n)
      (hfinite : (Float.ofNat n).isFinite = false) : Overflows (.call f args) s

/-- The value of an expression in a scope may hold a number out of range that no operation on the
way has checked. -/
inductive LetsThrough : Expr → Scope → Prop
  | overflow {e s} (h : Overflows e s) : LetsThrough e s
  | operand {operand s} (h : LetsThrough operand s) : LetsThrough (.unary .negate operand) s
  | base {base key s} (h : LetsThrough base s) : LetsThrough (.index base key) s
  | left {left right s} (h : LetsThrough left s) : LetsThrough (.binary left .coalesce right) s
  | right {left right s} (hleft : Operator.coalesce.goesOn (left.eval s))
      (h : LetsThrough right s) : LetsThrough (.binary left .coalesce right) s
  | yes {condition yes no s} (hcondition : condition.eval s = .ok (.bool true))
      (h : LetsThrough yes s) : LetsThrough (.ternary condition yes no) s
  | no {condition yes no s} (hcondition : condition.eval s = .ok (.bool false))
      (h : LetsThrough no s) : LetsThrough (.ternary condition yes no) s
  | item {items e s} (he : e ∈ items) (h : LetsThrough e s) : LetsThrough (.array items) s
  | entry {entries key e s} (he : (key, e) ∈ entries) (h : LetsThrough e s) :
      LetsThrough (.object entries) s
  | argument {f args e s} (hf : f.passesOn) (he : e ∈ args) (h : LetsThrough e s) :
      LetsThrough (.call f args) s
  | collection {f collection body s} (hf : f = .filter ∨ f = .map) (h : LetsThrough collection s) :
      LetsThrough (.call f [collection, body]) s
  | body {collection body s v elements x} (hcollection : collection.eval s = .ok v)
      (helements : Builtin.map.elements v = .ok elements) (hx : x ∈ elements)
      (h : LetsThrough body (s.withElement x)) : LetsThrough (.call .map [collection, body]) s

theorem Overflows.eval_eq_ok {e : Expr} {s : Scope} (h : e.Overflows s) :
    ∃ v, e.eval s = .ok v ∧ v.isFinite = false := by
  cases h with
  | @round args s x digits hargs _ _ hresult =>
    refine ⟨Builtin.roundTo x digits, ?_, hresult⟩
    have hlength : args.length = 2 := (length_of_evalAll hargs).symm
    rw [eval_call_of_accepts rfl (by rw [hlength]; rfl), hargs]
    rfl
  | @size f args s n _ hresult _ hfinite =>
    exact ⟨_, hresult, hfinite⟩

theorem ensures_size {f : Builtin} {args : List Expr} {s : Scope} (hf : f = .len ∨ f = .count)
    (hoverflow : ¬(call f args).Overflows s)
    (hsize : Ensures ((call f args).eval s) fun v => ∃ n, v = .number (Float.ofNat n)) :
    Ensures ((call f args).eval s) (·.isFinite) := by
  intro v hv
  obtain ⟨n, rfl⟩ := hsize v hv
  rw [Value.isFinite_number]
  by_contra hfinite
  refine hoverflow (.size hf hv ?_ (Bool.eq_false_iff.2 hfinite))
  by_contra hn
  exact hfinite (Number.isFinite_ofNat (Nat.not_le.1 hn))

/-- A call is finite if the arguments that it passes on are, and if it does not overflow. -/
theorem ensures_call {f : Builtin} {args : List Expr} {s : Scope} (hf : f.isClosure = false)
    (hcount : f.accepts args.length) (hoverflow : ¬(call f args).Overflows s)
    (hargs : f.passesOn → Ensures (evalAll args s) fun vs => ∀ v ∈ vs, v.isFinite) :
    Ensures ((call f args).eval s) (·.isFinite) := by
  by_cases hlen : f = .len
  · subst hlen
    refine ensures_size (.inl rfl) hoverflow ?_
    rw [eval_call_of_accepts hf hcount]
    intro v hv
    obtain ⟨vs, hvs, hv⟩ := bind_eq_ok.1 hv
    rw [← length_of_evalAll hvs] at hcount
    exact Builtin.ensures_apply_len hcount v hv
  · rw [eval_call_of_accepts hf hcount]
    intro v hv
    obtain ⟨vs, hvs, hv⟩ := bind_eq_ok.1 hv
    rw [← length_of_evalAll hvs] at hcount
    have hpassed (hp : f.passesOn) := hargs hp vs hvs
    by_cases hround : f = .round
    · subst hround
      rcases Builtin.ensures_apply_round hcount (hpassed rfl) v hv with
        hv | ⟨x, digits, rfl, hdigits, rfl⟩
      · exact hv
      · by_contra hfinite
        have hx := Value.isFinite_number.1 (hpassed rfl _ List.mem_cons_self)
        exact hoverflow (.round hvs hx hdigits (Bool.eq_false_iff.2 hfinite))
    · exact Builtin.ensures_apply hcount hf hpassed hlen hround v hv

/-- A function with a closure is finite if the elements that it keeps and the results that it
collects are, and if it does not count too many. -/
theorem ensures_closure {f : Builtin} {collection body : Expr} {s : Scope} (hf : f.isClosure)
    (hoverflow : ¬(call f [collection, body]).Overflows s)
    (hcollection : f = .filter ∨ f = .map → Ensures (collection.eval s) (·.isFinite))
    (hbody : f = .map → ∀ v elements x, collection.eval s = .ok v → f.elements v = .ok elements →
      x ∈ elements → x.isFinite → Ensures (body.eval (s.withElement x)) (·.isFinite)) :
    Ensures ((call f [collection, body]).eval s) (·.isFinite) := by
  by_cases hcount : f = .count
  · subst hcount
    refine ensures_size (.inr rfl) hoverflow ?_
    rw [eval_call_of_isClosure hf]
    exact .after fun _ => .after fun _ => Builtin.ensures_applyClosure_count
  · rw [eval_call_of_isClosure hf]
    intro v hv
    obtain ⟨w, hw, hv⟩ := bind_eq_ok.1 hv
    obtain ⟨elements, helements, hv⟩ := bind_eq_ok.1 hv
    have hfinite (hp : f = .filter ∨ f = .map) : ∀ x ∈ elements, x.isFinite :=
      Builtin.ensures_elements (hcollection hp w hw) elements helements
    refine Builtin.ensures_applyClosure hcount (fun hp => hfinite (.inl hp)) ?_ v hv
    intro hp x hx
    exact hbody hp w elements x hw helements hx (hfinite (.inr hp) x hx)

mutual

/-- Where no number out of range is let through, a value is finite. -/
theorem ensures_eval (e : Expr) (s : Scope) (he : e.HasFiniteLiterals) (hs : s.IsFinite)
    (h : ¬e.LetsThrough s) : Ensures (e.eval s) (·.isFinite) := by
  match e with
  | .literal v => exact .ok he
  | .field path => exact fun v hv => Value.hereditary_isFinite.field hs.root hv
  | .subject => exact fun v hv => hs.shows.of_subject_eq_ok Value.hereditary_isFinite hv
  | .element => exact fun v hv => hs.shows.of_element_eq_ok hv
  | .index base key =>
    have hbase := ensures_eval base s he.1 hs fun o => h (.base o)
    exact .bind hbase fun v hv => .after fun w => .ok (Value.hereditary_isFinite.index hv w)
  | .unary op operand =>
    cases op with
    | not => exact .after fun v => Operation.ensures_unary nofun
    | negate =>
      have hoperand := ensures_eval operand s he hs fun o => h (.operand o)
      exact .bind hoperand fun v hv => Operation.ensures_unary fun _ => hv
  | .binary left op right =>
    refine ensures_binary (fun _ => rfl) (Operation.ensures_arithmetic op) ?_ ?_
    · rintro rfl
      exact ensures_eval left s he.1 hs fun o => h (.left o)
    · rintro rfl hleft
      exact ensures_eval right s he.2 hs fun o => h (.right hleft o)
  | .ternary condition yes no =>
    intro v hv
    obtain ⟨w, hw, hv⟩ := bind_eq_ok.1 hv
    obtain ⟨b, hb, hv⟩ := bind_eq_ok.1 hv
    cases w with
    | bool c =>
      cases hb
      cases b with
      | true => exact ensures_eval yes s he.2.1 hs (fun o => h (.yes hw o)) v hv
      | false => exact ensures_eval no s he.2.2 hs (fun o => h (.no hw o)) v hv
    | _ => cases hb
  | .array items =>
    have hitems := ensures_evalAll items s he hs fun e he o => h (.item he o)
    exact .bind hitems fun vs hvs => .ok (Value.isFinite_array.2 hvs)
  | .object entries =>
    have hentries := ensures_evalEntries entries s he hs fun key e he o => h (.entry he o)
    exact .bind hentries fun ms hms => .ok (Value.isFinite_record hms)
  | .interval _ _ _ _ => exact .error _
  | .call f args =>
    have hoverflow (o : (call f args).Overflows s) := h (.overflow o)
    cases hcount : f.accepts args.length with
    | false =>
      rw [eval_call_of_not_accepts hcount]
      exact .error _
    | true =>
      cases hf : f.isClosure with
      | false =>
        refine ensures_call hf hcount hoverflow fun hp => ?_
        exact ensures_evalAll args s he hs fun e he o => h (.argument hp he o)
      | true =>
        match args with
        | [collection, body] =>
          refine ensures_closure hf hoverflow ?_ ?_
          · intro hp
            exact ensures_eval collection s he.1 hs fun o => h (.collection hp o)
          · rintro rfl v elements x hv helements hx hfinite
            exact ensures_eval body _ he.2.1 (hs.withElement hfinite) fun o =>
              h (.body hv helements hx o)
        | [] | [_] | _ :: _ :: _ :: _ =>
          exact absurd (Builtin.eq_two_of_accepts hf hcount) (by simp)
termination_by structural e

theorem ensures_evalAll (es : List Expr) (s : Scope) (hes : AllHaveFiniteLiterals es)
    (hs : s.IsFinite) (h : ∀ e ∈ es, ¬e.LetsThrough s) :
    Ensures (evalAll es s) fun vs => ∀ v ∈ vs, v.isFinite := by
  match es with
  | [] => exact .ok nofun
  | e :: rest =>
    have hhead := ensures_eval e s hes.1 hs (h e List.mem_cons_self)
    have hrest := ensures_evalAll rest s hes.2 hs fun u hu => h u (List.mem_cons_of_mem e hu)
    exact .bind hhead fun v hv => .bind hrest fun vs hvs => .ok (List.forall_mem_cons.2 ⟨hv, hvs⟩)
termination_by structural es

theorem ensures_evalEntries (entries : List (String × Expr)) (s : Scope)
    (hentries : EntriesHaveFiniteLiterals entries) (hs : s.IsFinite)
    (h : ∀ key e, (key, e) ∈ entries → ¬e.LetsThrough s) :
    Ensures (evalEntries entries s) fun ms => ∀ m ∈ ms, m.2.isFinite := by
  match entries with
  | [] => exact .ok nofun
  | (key, e) :: rest =>
    have hhead := ensures_eval e s hentries.1 hs (h key e List.mem_cons_self)
    have hrest := ensures_evalEntries rest s hentries.2 hs fun k u hu =>
      h k u (List.mem_cons_of_mem (key, e) hu)
    exact .bind hhead fun v hv => .bind hrest fun ms hms => .ok (List.forall_mem_cons.2 ⟨hv, hms⟩)
termination_by structural entries

end

/-- An expression of finite literals has a finite value in a finite scope, or it lets a number out
of range through. A call that overflows has a value that is not finite. -/
theorem isFinite_or_letsThrough {e : Expr} {s : Scope} (he : e.HasFiniteLiterals)
    (hs : s.IsFinite) :
    (∀ v, e.eval s = .ok v → v.isFinite ∨ e.LetsThrough s) ∧
      (e.Overflows s → ∃ v, e.eval s = .ok v ∧ v.isFinite = false) := by
  refine ⟨fun v hv => ?_, Overflows.eval_eq_ok⟩
  by_cases h : e.LetsThrough s
  · exact .inr h
  · exact .inl (ensures_eval e s he hs h v hv)

/-- The expression `round(price * 1.19, 2)`. -/
def grossPrice : Expr :=
  call .round [.binary (.field ["price"]) .mul (.number 1.19), .number 2]

def priceScope : Scope :=
  .ofRoot (.object [("price", .number 250)])

theorem grossPrice_not_letsThrough : ¬grossPrice.LetsThrough priceScope := by
  intro h
  cases h with
  | overflow o =>
    cases o with
    | round hargs _ hdigits _ =>
      cases hargs
      exact absurd hdigits (by decide +kernel)
    | size hf => rcases hf with hf | hf <;> cases hf
  | argument _ he h =>
    simp only [List.mem_cons, List.not_mem_nil, or_false] at he
    rcases he with rfl | rfl
    · cases h with
      | overflow o => cases o
    · cases h with
      | overflow o => cases o
  | collection hf => rcases hf with hf | hf <;> cases hf

theorem grossPrice_eval :
    grossPrice.eval priceScope = .ok (Builtin.roundTo (250 * 1.19) 2) := by
  have hproduct : (250 * 1.19 : Float).isFinite := by decide +kernel
  have hprice : priceScope.root.field ["price"] = .ok (.number 250) := rfl
  have hgross : (binary (.field ["price"]) .mul (.number 1.19)).eval priceScope =
      .ok (.number (250 * 1.19)) := by
    simp [eval, hprice, number, Operation.arithmetic, Operation.number, Value.ofFinite, hproduct]
  rw [grossPrice, eval_call_of_accepts rfl rfl, evalAll, hgross]
  rfl

theorem grossPrice_isFinite :
    grossPrice.HasFiniteLiterals ∧ priceScope.IsFinite ∧
      ∃ v, grossPrice.eval priceScope = .ok v ∧ v.isFinite := by
  have hrate : (1.19 : Float).isFinite := by decide +kernel
  have hdigits : (2 : Float).isFinite := by decide +kernel
  have hprice : (250 : Float).isFinite := by decide +kernel
  have he : grossPrice.HasFiniteLiterals :=
    ⟨⟨trivial, Value.isFinite_number.2 hrate⟩, Value.isFinite_number.2 hdigits, trivial⟩
  have hs : priceScope.IsFinite :=
    ⟨Value.isFinite_object.2 (by simpa using hprice), nofun, nofun⟩
  have hv := (isFinite_or_letsThrough he hs).1 _ grossPrice_eval
  exact ⟨he, hs, _, grossPrice_eval, hv.resolve_right grossPrice_not_letsThrough⟩

/-- Rounding the finite number `1.7e308` to a multiple of `1e308` gives infinity. -/
theorem round_leaves_range :
    (call .round [number 1.7e308, number (-308)]).HasFiniteLiterals ∧
    (Scope.ofRoot .empty).IsFinite ∧
    ∃ v, (call .round [number 1.7e308, number (-308)]).eval (.ofRoot .empty) = .ok v ∧
      v.isFinite = false := by
  have hlarge : (1.7e308 : Float).isFinite := by decide +kernel
  have hdigits : (-308 : Float).isFinite := by decide +kernel
  refine ⟨⟨Value.isFinite_number.2 hlarge, Value.isFinite_number.2 hdigits, trivial⟩, ?_, ?_⟩
  · exact ⟨rfl, nofun, nofun⟩
  · exact Overflows.eval_eq_ok (.round rfl hlarge (by decide +kernel) (by decide +kernel))

end RuleGraph.Expr

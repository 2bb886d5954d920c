import RuleGraph.Proofs.Expr.Closure
import RuleGraph.Proofs.Number.Integers
import RuleGraph.Proofs.Value.Finite
/-!
# Finite results of operations

Arithmetic, sums and averages check their results. The other operations give finite values for
finite ones, except that a number rounded before the decimal point may leave the range when it is
scaled back.
-/
namespace RuleGraph

theorem Value.ensures_ofFinite (x : Float) : Ensures (Value.ofFinite x) (·.isFinite) := by
  unfold Value.ofFinite
  split
  · next h => exact .ok (isFinite_number.2 h)
  · exact .error _

namespace Operation

theorem ensures_arithmetic (op : Operator) (v w : Value) :
    Ensures (arithmetic op v w) (·.isFinite) := by
  unfold arithmetic
  split
  · split
    · exact .error _
    · exact Value.ensures_ofFinite _
  · split
    · exact .ok (Value.isFinite_string _)
    · exact .error _

theorem ensures_unary {op : UnaryOperator} {v : Value} (hv : op = .negate → v.isFinite) :
    Ensures (unary op v) (·.isFinite) := by
  unfold unary
  split
  · exact .ok (Value.isFinite_bool _)
  · refine .ok (Value.isFinite_number.2 ?_)
    rw [Number.isFinite_neg]
    exact Value.isFinite_number.1 (hv rfl)
  · exact .error _
  · exact .error _

end Operation

namespace Builtin
variable {f : Builtin} {v : Value} {args : List Value} {xs : List Float}

theorem ensures_numeral (hv : v.isFinite) : Ensures (f.numeral v) (·.isFinite) := by
  cases v with
  | number x => exact .ok (Value.isFinite_number.1 hv)
  | _ => exact .error _

theorem ensures_number {g : Float → Float} (hg : ∀ {x : Float}, x.isFinite → (g x).isFinite)
    (hv : v.isFinite) :
    Ensures (do return Value.number (g (← f.numeral v))) (·.isFinite) :=
  .bind (ensures_numeral hv) fun _ hx => .ok (Value.isFinite_number.2 (hg hx))

theorem ensures_numerals (hargs : ∀ a ∈ args, a.isFinite) :
    Ensures (f.numerals args) fun xs => ∀ x ∈ xs, x.isFinite := by
  unfold numerals
  split
  · next items =>
    have hitems := Value.isFinite_array.1 (hargs _ List.mem_cons_self)
    exact .mapM fun a ha => ensures_numeral (hitems a ha)
  · exact .mapM fun a ha => ensures_numeral (hargs a ha)

theorem isFinite_foldl {choose : Float → Float → Float}
    (hchoose : ∀ {x y : Float}, x.isFinite → y.isFinite → (choose x y).isFinite) {x : Float}
    (hx : x.isFinite) (hxs : ∀ x ∈ xs, x.isFinite) : (xs.foldl choose x).isFinite := by
  induction xs generalizing x with
  | nil => exact hx
  | cons y rest ih =>
    obtain ⟨hy, hrest⟩ := List.forall_mem_cons.1 hxs
    exact ih (hchoose hx hy) hrest

theorem ensures_pick {choose : Float → Float → Float}
    (hchoose : ∀ {x y : Float}, x.isFinite → y.isFinite → (choose x y).isFinite)
    (hargs : ∀ a ∈ args, a.isFinite) :
    Ensures (do return pick choose (← f.numerals args)) (·.isFinite) := by
  refine .bind (ensures_numerals hargs) fun xs hxs => .ok ?_
  cases xs with
  | nil => exact Value.isFinite_null
  | cons x rest =>
    obtain ⟨hx, hrest⟩ := List.forall_mem_cons.1 hxs
    exact Value.isFinite_number.2 (isFinite_foldl hchoose hx hrest)

/-- After the decimal point the scale is at least one, so that scaling back stays in range. -/
theorem isFinite_roundTo {x digits : Float} (hx : x.isFinite)
    (hdigits : 0 ≤ Number.toIntWithin 308 digits) : (roundTo x digits).isFinite := by
  rw [roundTo, Value.isFinite_number]
  split
  · next hscaled =>
    exact Number.isFinite_div (Number.isFinite_round hscaled) (Number.atLeastOne_powerOfTen hdigits)
  · exact hx

theorem ensures_toNumber (hv : v.isFinite) : Ensures (f.toNumber v) (·.isFinite) := by
  unfold toNumber
  split
  · exact .ok hv
  · next b =>
    refine .ok (Value.isFinite_number.2 ?_)
    cases b <;> decide +kernel
  · split
    · split
      · next h => exact .ok (Value.isFinite_number.2 h)
      · exact .error _
    · exact .error _
  · exact .error _

theorem ensures_items (hv : v.isFinite) : Ensures (f.items v) fun vs => ∀ v ∈ vs, v.isFinite := by
  cases v with
  | array items => exact .ok (Value.isFinite_array.1 hv)
  | _ => exact .error _

theorem ensures_membersOf (hv : v.isFinite) :
    Ensures (f.membersOf v) fun members => ∀ m ∈ members, m.2.isFinite := by
  cases v with
  | object members => exact .ok (Value.isFinite_object.1 hv)
  | _ => exact .error _

theorem isFinite_flattened (hv : v.isFinite) : ∀ u ∈ flattened v, u.isFinite := by
  cases v with
  | array items => exact Value.isFinite_array.1 hv
  | _ => exact List.forall_mem_singleton.2 hv

theorem ensures_elements (hv : v.isFinite) :
    Ensures (f.elements v) fun vs => ∀ v ∈ vs, v.isFinite := by
  cases v with
  | array items => exact .ok (Value.isFinite_array.1 hv)
  | null => exact .ok (by simp)
  | _ => exact .error _

/-- The functions whose result holds numbers that were in their arguments or come from them without
a check. -/
def passesOn : Builtin → Bool
  | .abs | .floor | .ceil | .round | .min | .max | .number | .values | .flatten => true
  | _ => false

theorem eq_singleton_of_accepts (hf : f.arity = (1, Option.some 1)) (h : f.accepts args.length) :
    ∃ v, args = [v] := by
  rw [accepts, hf] at h
  simp only [Bool.and_eq_true, decide_eq_true_eq] at h
  exact List.length_eq_one_iff.1 (by omega)

theorem eq_pair_of_accepts (hf : f.arity = (2, Option.some 2)) (h : f.accepts args.length) :
    ∃ v w, args = [v, w] := by
  rw [accepts, hf] at h
  simp only [Bool.and_eq_true, decide_eq_true_eq] at h
  exact List.length_eq_two.1 (by omega)

theorem ensures_apply_len (hcount : Builtin.len.accepts args.length) :
    Ensures (Builtin.len.apply args) fun v => ∃ n, v = .number (Float.ofNat n) := by
  obtain ⟨v, rfl⟩ := eq_singleton_of_accepts rfl hcount
  exact .after fun n => .ok ⟨n, rfl⟩

/-- A rounded number is finite unless it is rounded before the decimal point. -/
theorem ensures_apply_round (hcount : Builtin.round.accepts args.length)
    (hargs : ∀ a ∈ args, a.isFinite) :
    Ensures (Builtin.round.apply args) fun v => v.isFinite ∨
      ∃ x digits, args = [.number x, .number digits] ∧ Number.toIntWithin 308 digits < 0 ∧
        v = roundTo x digits := by
  match args with
  | [v] =>
    refine .bind (ensures_numeral (hargs v List.mem_cons_self)) fun x hx => .ok (.inl ?_)
    exact isFinite_roundTo hx (by decide +kernel)
  | [v, w] =>
    match v, w with
    | .number x, .number digits =>
      refine .ok ?_
      by_cases hdigits : Number.toIntWithin 308 digits < 0
      · exact .inr ⟨x, digits, rfl, hdigits, rfl⟩
      · have hx := Value.isFinite_number.1 (hargs _ List.mem_cons_self)
        exact .inl (isFinite_roundTo hx (Int.not_lt.1 hdigits))
    | .number _, .null | .number _, .bool _ | .number _, .string _ | .number _, .array _
    | .number _, .object _ | .null, _ | .bool _, _ | .string _, _ | .array _, _
    | .object _, _ => exact .error _
  | [] => cases hcount
  | _ :: _ :: _ :: rest => simp [accepts, arity] at hcount

/-- The result of a function that neither counts nor rounds is finite. -/
theorem ensures_apply (hcount : f.accepts args.length) (hclosure : f.isClosure = false)
    (hargs : f.passesOn → ∀ a ∈ args, a.isFinite) (hlen : f ≠ .len) (hround : f ≠ .round) :
    Ensures (f.apply args) (·.isFinite) := by
  cases f with
  | len => exact absurd rfl hlen
  | round => exact absurd rfl hround
  -- Texts and truth values hold no number.
  | upper | lower | trim =>
    obtain ⟨v, rfl⟩ := eq_singleton_of_accepts rfl hcount
    exact .after fun _ => .ok rfl
  | string | isNull =>
    obtain ⟨v, rfl⟩ := eq_singleton_of_accepts rfl hcount
    exact .ok rfl
  | bool =>
    obtain ⟨v, rfl⟩ := eq_singleton_of_accepts rfl hcount
    change Ensures (toBool .bool v) _
    unfold toBool
    split <;> first | exact .ok rfl | exact .error _
  | keys =>
    obtain ⟨v, rfl⟩ := eq_singleton_of_accepts rfl hcount
    exact .after fun _ => .ok (Value.isFinite_strings _)
  | contains =>
    obtain ⟨v, w, rfl⟩ := eq_pair_of_accepts rfl hcount
    exact .after fun _ => .ok rfl
  | startsWith | endsWith | join =>
    obtain ⟨v, w, rfl⟩ := eq_pair_of_accepts rfl hcount
    exact .after fun _ => .after fun _ => .ok rfl
  | split =>
    obtain ⟨v, w, rfl⟩ := eq_pair_of_accepts rfl hcount
    exact .after fun _ => .after fun _ => .ok (Value.isFinite_strings _)
  -- Numbers that are passed on.
  | abs =>
    obtain ⟨v, rfl⟩ := eq_singleton_of_accepts rfl hcount
    exact ensures_number (Number.isFinite_abs _).trans (hargs rfl v List.mem_cons_self)
  | floor =>
    obtain ⟨v, rfl⟩ := eq_singleton_of_accepts rfl hcount
    exact ensures_number Number.isFinite_floor (hargs rfl v List.mem_cons_self)
  | ceil =>
    obtain ⟨v, rfl⟩ := eq_singleton_of_accepts rfl hcount
    exact ensures_number Number.isFinite_ceil (hargs rfl v List.mem_cons_self)
  | min => exact ensures_pick Number.isFinite_least (hargs rfl)
  | max => exact ensures_pick Number.isFinite_greatest (hargs rfl)
  | number =>
    obtain ⟨v, rfl⟩ := eq_singleton_of_accepts rfl hcount
    exact ensures_toNumber (hargs rfl v List.mem_cons_self)
  | values =>
    obtain ⟨v, rfl⟩ := eq_singleton_of_accepts rfl hcount
    exact .bind (ensures_membersOf (hargs rfl v List.mem_cons_self)) fun members hmembers =>
      .ok (Value.isFinite_array.2 (List.forall_mem_map.2 hmembers))
  | flatten =>
    obtain ⟨v, rfl⟩ := eq_singleton_of_accepts rfl hcount
    refine .bind (ensures_items (hargs rfl v List.mem_cons_self)) fun items hitems =>
      .ok (Value.isFinite_array.2 fun u hu => ?_)
    obtain ⟨w, hw, hu⟩ := List.mem_flatMap.1 hu
    exact isFinite_flattened (hitems w hw) u hu
  -- Sums and averages are checked.
  | sum => exact .after fun _ => Value.ensures_ofFinite _
  | avg =>
    refine .after fun xs => ?_
    split
    · exact .ok rfl
    · exact Value.ensures_ofFinite _
  | filter | map | some | all | none | count => cases hclosure

variable {run : Value → Except EvalError Value} {elements : List Value}

theorem ensures_applyClosure_count :
    Ensures (Builtin.count.applyClosure run elements) fun v => ∃ n, v = .number (Float.ofNat n) :=
  .after fun n => .ok ⟨n, rfl⟩

/-- The result of a function with a closure that does not count is finite, if the elements that it
may keep and the results that it collects are. -/
theorem ensures_applyClosure (hcount : f ≠ .count)
    (helements : f = .filter → ∀ x ∈ elements, x.isFinite)
    (hrun : f = .map → ∀ x ∈ elements, Ensures (run x) (·.isFinite)) :
    Ensures (f.applyClosure run elements) (·.isFinite) := by
  cases f with
  | count => exact absurd rfl hcount
  | map => exact .bind (.mapM (hrun rfl)) fun vs hvs => .ok (Value.isFinite_array.2 hvs)
  | filter =>
    have hkept (test : Value → Except EvalError Bool) :
        Ensures (keep test elements) fun kept => ∀ x ∈ kept, x.isFinite :=
      fun kept h x hx => helements rfl x ((keep_sublist h).subset hx)
    exact .bind (hkept _) fun kept hkept => .ok (Value.isFinite_array.2 hkept)
  | some | all | none => exact .after fun _ => .ok rfl
  | _ => exact .error _

end Builtin
end RuleGraph

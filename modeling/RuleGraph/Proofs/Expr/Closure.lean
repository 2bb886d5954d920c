import RuleGraph.Expr.Function
import RuleGraph.Proofs.Results
/-!
# Closures

What a function gives for the results of its closure: the first result that fails is that of the
whole, and only the results for elements that the function comes to count.
-/
namespace RuleGraph

/-- Two functions agree on the items of a list as far as all items before have a property. -/
def AgreeWhile {α β : Type} (p : α → Prop) (f g : α → β) (items : List α) : Prop :=
  ∀ before x after, items = before ++ x :: after → (∀ u ∈ before, p u) → g x = f x

section
variable {α β : Type} {p : α → Prop} {f g : α → β} {x : α} {items rest : List α}

theorem AgreeWhile.head (h : AgreeWhile p f g (x :: rest)) : g x = f x :=
  h [] x rest rfl fun _ hu => absurd hu List.not_mem_nil

theorem AgreeWhile.tail (h : AgreeWhile p f g (x :: rest)) (hx : p x) : AgreeWhile p f g rest := by
  intro before y after heq hbefore
  apply h (x :: before) y after (by rw [heq, List.cons_append])
  intro u hu
  rcases List.mem_cons.1 hu with rfl | hu
  · exact hx
  · exact hbefore u hu

theorem AgreeWhile.comp {γ : Type} {q : α → Prop} (h : AgreeWhile p f g items) (k : β → γ)
    (hq : ∀ u, q u → p u) : AgreeWhile q (fun u => k (f u)) (fun u => k (g u)) items :=
  fun before y after heq hbefore =>
    congrArg k (h before y after heq fun u hu => hq u (hbefore u hu))

end

namespace Builtin

/-- Whether a function goes on to the next element after the result of its closure for one. -/
def goesOn (f : Builtin) (result : Except EvalError Value) : Prop :=
  match f with
  | .map => ∃ v, result = .ok v
  | .filter | .count => ∃ b, result = .ok (.bool b)
  | .some | .none => result = .ok (.bool false)
  | .all => result = .ok (.bool true)
  | _ => False

theorem accepts_two_of_isClosure {f : Builtin} (hf : f.isClosure) : f.accepts 2 := by
  cases f <;> first | rfl | cases hf

theorem eq_two_of_accepts {f : Builtin} (hf : f.isClosure) {n : Nat} (h : f.accepts n) : n = 2 := by
  have harity : f.arity = (2, Option.some 2) := by
    cases f <;> first | rfl | cases hf
  rw [accepts, harity] at h
  simp only [Bool.and_eq_true, decide_eq_true_eq] at h
  omega

theorem keep_sublist {test : Value → Except EvalError Bool} {elements kept : List Value}
    (h : keep test elements = .ok kept) : kept.Sublist elements := by
  induction elements generalizing kept with
  | nil =>
    cases h
    exact List.Sublist.slnil
  | cons x rest ih =>
    obtain ⟨b, -, h⟩ := bind_eq_ok.1 h
    obtain ⟨others, hothers, h⟩ := bind_eq_ok.1 h
    cases h
    cases b with
    | true => exact (ih hothers).cons_cons x
    | false => exact (ih hothers).cons x

theorem keep_of_error {test : Value → Except EvalError Bool} {before after : List Value} {x : Value}
    {err : EvalError} (hbefore : ∀ u ∈ before, ∃ b, test u = .ok b) (h : test x = .error err) :
    keep test (before ++ x :: after) = .error err := by
  induction before with
  | nil => simp [keep, h]
  | cons u rest ih =>
    obtain ⟨b, hb⟩ := hbefore u List.mem_cons_self
    have hrest := ih fun w hw => hbefore w (List.mem_cons_of_mem u hw)
    simp [keep, hb, hrest]

theorem mapM_of_error {run : Value → Except EvalError Value} {before after : List Value} {x : Value}
    {err : EvalError} (hbefore : ∀ u ∈ before, ∃ v, run u = .ok v) (h : run x = .error err) :
    (before ++ x :: after).mapM run = .error err := by
  induction before with
  | nil => simp [h]
  | cons u rest ih =>
    obtain ⟨v, hv⟩ := hbefore u List.mem_cons_self
    have hrest := ih fun w hw => hbefore w (List.mem_cons_of_mem u hw)
    simp only [List.cons_append, List.mapM_cons, hv, hrest, ok_bind, error_bind]

theorem anyM_of_error {test : Value → Except EvalError Bool} {before after : List Value} {x : Value}
    {err : EvalError} (hbefore : ∀ u ∈ before, test u = .ok false) (h : test x = .error err) :
    (before ++ x :: after).anyM test = .error err := by
  induction before with
  | nil => simp [h]
  | cons u rest ih =>
    have hrest := ih fun w hw => hbefore w (List.mem_cons_of_mem u hw)
    simp [hbefore u List.mem_cons_self, hrest]

theorem allM_of_error {test : Value → Except EvalError Bool} {before after : List Value} {x : Value}
    {err : EvalError} (hbefore : ∀ u ∈ before, test u = .ok true) (h : test x = .error err) :
    (before ++ x :: after).allM test = .error err := by
  induction before with
  | nil => simp [h]
  | cons u rest ih =>
    have hrest := ih fun w hw => hbefore w (List.mem_cons_of_mem u hw)
    simp [hbefore u List.mem_cons_self, hrest]

/-- Counting goes as far as keeping, and counts what is kept. -/
theorem countFrom_eq (test : Value → Except EvalError Bool) (n : Nat) (elements : List Value) :
    countFrom test n elements = do return n + (← keep test elements).length := by
  induction elements generalizing n with
  | nil => rfl
  | cons v rest ih =>
    rw [countFrom, keep, bind_assoc]
    congr 1
    funext passes
    rw [ih]
    cases keep test rest with
    | error e => rfl
    | ok kept =>
      cases passes with
      | false => rfl
      | true => exact congrArg Except.ok (by simp only [if_true, List.length_cons]; omega)

/-- Nothing is found exactly if the search for something fails to find it. -/
theorem noneOf_eq (test : Value → Except EvalError Bool) (elements : List Value) :
    noneOf test elements = do return !(← elements.anyM test) := by
  induction elements with
  | nil => rfl
  | cons v rest ih =>
    rw [noneOf, List.anyM_cons, bind_assoc]
    congr 1
    funext passes
    cases passes with
    | false => exact ih
    | true => rfl

variable {run : Value → Except EvalError Value} {elements : List Value}

theorem applyClosure_count : Builtin.count.applyClosure run elements = do
    return .number (Float.ofNat (← keep (fun v => do truth .count (← run v)) elements).length) := by
  rw [applyClosure, countFrom_eq, bind_assoc]
  congr 1
  funext kept
  exact congrArg (fun n => Except.ok (Value.number (Float.ofNat n))) (Nat.zero_add _)

theorem applyClosure_none : Builtin.none.applyClosure run elements = do
    return .bool !(← elements.anyM fun v => do truth .none (← run v)) := by
  rw [applyClosure, noneOf_eq, bind_assoc]
  rfl

/-- A closure that fails for an element it comes to fails altogether. -/
theorem applyClosure_of_error {f : Builtin} {run : Value → Except EvalError Value}
    {before after : List Value} {x : Value} {err : EvalError} (hf : f.isClosure)
    (hbefore : ∀ u ∈ before, f.goesOn (run u)) (h : run x = .error err) :
    f.applyClosure run (before ++ x :: after) = .error err := by
  have htest : (do f.truth (← run x)) = (.error err : Except EvalError Bool) := by
    rw [h]
    rfl
  have htrue (u : Value) (b : Bool) (hu : run u = .ok (.bool b)) :
      (do f.truth (← run u)) = (.ok b : Except EvalError Bool) := by
    rw [hu]
    rfl
  cases f with
  | map => simp only [applyClosure, mapM_of_error hbefore h, error_bind]
  | filter =>
    have hb := fun u hu => (hbefore u hu).imp (htrue u)
    simp only [applyClosure, keep_of_error hb htest, error_bind]
  | count =>
    have hb := fun u hu => (hbefore u hu).imp (htrue u)
    simp only [applyClosure_count, keep_of_error hb htest, error_bind]
  | some =>
    have hb := fun u hu => htrue u false (hbefore u hu)
    simp only [applyClosure, anyM_of_error hb htest, error_bind]
  | none =>
    have hb := fun u hu => htrue u false (hbefore u hu)
    simp only [applyClosure_none, anyM_of_error hb htest, error_bind]
  | all =>
    have hb := fun u hu => htrue u true (hbefore u hu)
    simp only [applyClosure, allM_of_error hb htest, error_bind]
  | _ => cases hf

variable {f : Builtin} {run' : Value → Except EvalError Value}

theorem mapM_congr {elements : List Value}
    (h : AgreeWhile (fun u => f.goesOn (run u)) run run' elements) (hf : f = .map) :
    elements.mapM run' = elements.mapM run := by
  subst hf
  induction elements with
  | nil => rfl
  | cons x rest ih =>
    rw [List.mapM_cons, List.mapM_cons]
    exact bind_congr_ok h.head fun v hv => by rw [ih (h.tail ⟨v, hv⟩)]

theorem run_eq_ok_of_test {v : Value} {b : Bool} (h : (do f.truth (← run v)) = .ok b) :
    run v = .ok (.bool b) := by
  obtain ⟨w, hw, ht⟩ := bind_eq_ok.1 h
  rw [hw]
  cases w <;> cases ht
  rfl

theorem keep_congr {elements : List Value} {test test' : Value → Except EvalError Bool}
    (h : AgreeWhile (fun u => ∃ b, test u = .ok b) test test' elements) :
    keep test' elements = keep test elements := by
  induction elements with
  | nil => rfl
  | cons x rest ih =>
    rw [keep, keep]
    exact bind_congr_ok h.head fun b hb => by rw [ih (h.tail ⟨b, hb⟩)]

theorem anyM_congr {elements : List Value} {test test' : Value → Except EvalError Bool}
    (h : AgreeWhile (fun u => test u = .ok false) test test' elements) :
    elements.anyM test' = elements.anyM test := by
  induction elements with
  | nil => rfl
  | cons x rest ih =>
    rw [List.anyM_cons, List.anyM_cons]
    refine bind_congr_ok h.head fun b hb => ?_
    cases b with
    | true => rfl
    | false => exact ih (h.tail hb)

theorem allM_congr {elements : List Value} {test test' : Value → Except EvalError Bool}
    (h : AgreeWhile (fun u => test u = .ok true) test test' elements) :
    elements.allM test' = elements.allM test := by
  induction elements with
  | nil => rfl
  | cons x rest ih =>
    rw [List.allM_cons, List.allM_cons]
    refine bind_congr_ok h.head fun b hb => ?_
    cases b with
    | true => exact ih (h.tail hb)
    | false => rfl

/-- What a closure gives depends only on its results for the elements it comes to. -/
theorem applyClosure_congr {elements : List Value}
    (h : AgreeWhile (fun u => f.goesOn (run u)) run run' elements) :
    f.applyClosure run' elements = f.applyClosure run elements := by
  have htest (b : Bool) (u : Value) : (do f.truth (← run u)) = .ok b → run u = .ok (.bool b) :=
    run_eq_ok_of_test
  have hagree (q : Value → Prop) (hq : ∀ u, q u → f.goesOn (run u)) :
      AgreeWhile q (fun u => do f.truth (← run u)) (fun u => do f.truth (← run' u)) elements :=
    h.comp (fun r => do f.truth (← r)) hq
  cases f with
  | map => simp only [applyClosure, mapM_congr h rfl]
  | filter =>
    have hkeep := keep_congr (hagree _ fun u => Exists.imp fun b => htest b u)
    simp only [applyClosure, hkeep]
  | count =>
    have hkeep := keep_congr (hagree _ fun u => Exists.imp fun b => htest b u)
    simp only [applyClosure_count, hkeep]
  | some =>
    have hany := anyM_congr (hagree _ (htest false))
    simp only [applyClosure, hany]
  | none =>
    have hany := anyM_congr (hagree _ (htest false))
    simp only [applyClosure_none, hany]
  | all =>
    have hall := allM_congr (hagree _ (htest true))
    simp only [applyClosure, hall]
  | _ => rfl

end Builtin
end RuleGraph

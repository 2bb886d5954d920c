import RuleGraph.Proofs.Folding.Compile
import RuleGraph.Proofs.Folding.Expression
import RuleGraph.Proofs.Run.Progress
/-!
# Folded decisions

A change of expressions that keeps values and undefined references keeps what nodes and decisions
give: the result and the trace, also if the sub-decisions are changed in such a way. Folding is one.
-/
namespace RuleGraph

/-- A change of expressions that keeps their values and the references that are undefined. -/
structure Expr.Keeps (g : Expr → Expr) : Prop where
  ok : ∀ {e s v}, e.eval s = .ok v → (g e).eval s = .ok v
  undefined : ∀ {e s name}, e.eval s = .error (.undefined name) →
    (g e).eval s = .error (.undefined name)

theorem Expr.keeps_fold : Expr.Keeps Expr.fold :=
  ⟨eval_fold_of_ok, eval_fold_of_undefined⟩

theorem Expr.keeps_id : Expr.Keeps id :=
  ⟨id, id⟩

section
variable {g : Expr → Expr} (hg : Expr.Keeps g) {s : Scope}
include hg

theorem Expr.Keeps.holds {e : Expr} {b : Bool} (h : e.holds s = .ok b) : (g e).holds s = .ok b := by
  unfold Expr.holds at h ⊢
  obtain ⟨v, hv, h⟩ := bind_eq_ok.1 h
  rw [hg.ok hv, ok_bind]
  exact h

theorem TableInput.subject_mapExprs {column : TableInput} {subject : Option Value}
    (h : column.subject s = .ok subject) : (column.mapExprs g).subject s = .ok subject := by
  obtain ⟨id, name, field⟩ := column
  cases field with
  | none => exact h
  | some field =>
    simp only [TableInput.subject, TableInput.mapExprs, Option.map_some] at h ⊢
    cases hv : field.eval s with
    | ok v => rw [hv] at h; rw [hg.ok hv]; exact h
    | error e =>
      rw [hv] at h
      cases e with
      | undefined name => rw [hg.undefined hv]; exact h
      | _ => cases h

theorem testsHold_mapExprs {tests : List (Option Expr)} {subjects : List (Option Value)} {b : Bool}
    (h : testsHold s tests subjects = .ok b) :
    testsHold s (tests.map (Option.map g)) subjects = .ok b := by
  induction tests generalizing subjects with
  | nil => exact h
  | cons test tests ih =>
    cases subjects with
    | nil => cases test <;> exact h
    | cons subject subjects =>
      cases test with
      | none => exact ih h
      | some test =>
        rw [testsHold] at h
        obtain ⟨holds, htest, h⟩ := bind_eq_ok.1 h
        rw [List.map_cons, Option.map_some, testsHold, hg.holds htest, ok_bind]
        cases holds with
        | true => exact ih h
        | false => exact h

theorem rowOutput_mapExprs {columns : List TableOutput} {cells : List (Option Expr)}
    {output v : Value} (h : rowOutput s columns cells output = .ok v) :
    rowOutput s columns (cells.map (Option.map g)) output = .ok v := by
  induction columns generalizing cells output with
  | nil => cases cells <;> exact h
  | cons column columns ih =>
    cases cells with
    | nil => exact h
    | cons cell cells =>
      cases cell with
      | none => exact ih h
      | some cell =>
        rw [rowOutput] at h
        obtain ⟨w, hw, h⟩ := bind_eq_ok.1 h
        rw [List.map_cons, Option.map_some, rowOutput, hg.ok hw, ok_bind]
        exact ih h

end

theorem Table.matching_map {policy : HitPolicy} {f : Row → Row}
    {isMatch isMatch' : Row → Except EvalError Bool}
    (hmatch : ∀ row b, isMatch row = .ok b → isMatch' (f row) = .ok b) {rows selected : List Row}
    (h : matching policy isMatch rows = .ok selected) :
    matching policy isMatch' (rows.map f) = .ok (selected.map f) := by
  induction rows generalizing selected with
  | nil => cases h; rfl
  | cons row rest ih =>
    unfold matching at h
    obtain ⟨b, hb, h⟩ := bind_eq_ok.1 h
    rw [List.map_cons]
    unfold matching
    rw [hmatch row b hb, ok_bind]
    cases b with
    | false => exact ih h
    | true =>
      cases policy with
      | first => cases h; rfl
      | collect =>
        obtain ⟨others, hothers, h⟩ := bind_eq_ok.1 h
        cases h
        simp [ih hothers]

section
variable {g : Expr → Expr}

theorem Table.filter_mapExprs (p : Bool → Bool) (rows : List Row) :
    (rows.map (Row.mapExprs g)).filter (fun row => p row.isDefault) =
      (rows.filter fun row => p row.isDefault).map (Row.mapExprs g) := by
  rw [List.filter_map]
  rfl

theorem Table.selected_mapExprs {t : Table} {isMatch isMatch' : Row → Except EvalError Bool}
    (hmatch : ∀ row b, isMatch row = .ok b → isMatch' (row.mapExprs g) = .ok b)
    {rows : List Row} (h : t.selected isMatch = .ok rows) :
    (t.mapExprs g).selected isMatch' = .ok (rows.map (Row.mapExprs g)) := by
  unfold selected at h ⊢
  obtain ⟨regular, hregular, h⟩ := bind_eq_ok.1 h
  have hregular' := matching_map hmatch hregular
  simp only [mapExprs, filter_mapExprs (g := g) (fun b => !b),
    filter_mapExprs (g := g) (fun b => b), hregular', ok_bind, List.isEmpty_map]
  cases hempty : regular.isEmpty with
  | true =>
    rw [hempty] at h
    exact matching_map hmatch h
  | false =>
    rw [hempty] at h
    cases h
    rfl

theorem Table.detail_mapExprs (rows : List Row) :
    detail (rows.map (Row.mapExprs g)) = detail rows := by
  unfold detail
  rw [List.map_map]
  rfl

theorem Table.evaluate_mapExprs (hg : Expr.Keeps g) {t : Table} {input : Value} {o : Outcome}
    (h : t.evaluate input = .ok o) : (t.mapExprs g).evaluate input = .ok o := by
  unfold evaluate at h ⊢
  obtain ⟨subjects, hsubjects, h⟩ := bind_eq_ok.1 h
  obtain ⟨rows, hrows, h⟩ := bind_eq_ok.1 h
  obtain ⟨outputs, houtputs, h⟩ := bind_eq_ok.1 h
  have hsubjects' : (t.mapExprs g).inputs.mapM (·.subject (Scope.ofRoot input)) = .ok subjects :=
    mapM_map_eq_ok (g := TableInput.mapExprs g) (fun _ _ => TableInput.subject_mapExprs hg)
      hsubjects
  have hmatch (row : Row) (b : Bool)
      (hb : testsHold (Scope.ofRoot input) row.conditions subjects = .ok b) :
      testsHold (Scope.ofRoot input) (row.mapExprs g).conditions subjects = .ok b :=
    testsHold_mapExprs hg hb
  have hrows' : (t.mapExprs g).selected (fun row =>
      testsHold (Scope.ofRoot input) row.conditions subjects) = .ok (rows.map (Row.mapExprs g)) :=
    selected_mapExprs hmatch hrows
  have houtputs' : (rows.map (Row.mapExprs g)).mapM
      (fun row => rowOutput (Scope.ofRoot input) t.outputs row.outputs .empty) = .ok outputs :=
    mapM_map_eq_ok (g := Row.mapExprs g) (fun _ _ => rowOutput_mapExprs hg) houtputs
  simp only [hsubjects', hrows', ok_bind]
  simp only [mapExprs, houtputs', ok_bind, detail_mapExprs]
  exact h

end

section
variable {g : Expr → Expr} (hg : Expr.Keeps g)
include hg

theorem entriesOutput_mapExprs {s : Scope} {entries : List (List String × Expr)} {output v : Value}
    (h : entriesOutput s entries output = .ok v) :
    entriesOutput s (entries.map fun entry => (entry.1, g entry.2)) output = .ok v := by
  induction entries generalizing output with
  | nil => exact h
  | cons entry rest ih =>
    rw [entriesOutput] at h
    obtain ⟨w, hw, h⟩ := bind_eq_ok.1 h
    rw [List.map_cons, entriesOutput, hg.ok hw, ok_bind]
    exact ih h

theorem expressionsOutcome_mapExprs {entries : List (List String × Expr)} {passes : Bool}
    {input : Value} {o : Outcome} (h : expressionsOutcome entries passes input = .ok o) :
    expressionsOutcome (entries.map fun entry => (entry.1, g entry.2)) passes input = .ok o := by
  unfold expressionsOutcome at h ⊢
  obtain ⟨v, hv, h⟩ := bind_eq_ok.1 h
  rw [entriesOutput_mapExprs hg hv, ok_bind]
  exact h

theorem functionOutcome_mapExprs {source : Expr} {input : Value} {o : Outcome}
    (h : functionOutcome source input = .ok o) : functionOutcome (g source) input = .ok o := by
  unfold functionOutcome at h ⊢
  obtain ⟨v, hv, h⟩ := bind_eq_ok.1 h
  rw [hg.ok hv, ok_bind]
  exact h

end

/-- A host that answers as another one does, except that expressions of the decisions it knows may
be changed. -/
structure Host.Keeps (host host' : Host Id) : Prop where
  handler : host'.handler = host.handler
  resolver : ∀ resolve, host.resolver = some resolve → ∃ resolve', host'.resolver = some resolve' ∧
    ∀ key d, (resolve key).run = .ok d →
      ∃ g, Expr.Keeps g ∧ (resolve' key).run = .ok (d.mapExprs g)

def Host.folded (host : Host Id) : Host Id where
  handler := host.handler
  resolver := host.resolver.map fun resolve key =>
    pure ((resolve key).run.map (Decision.mapExprs Expr.fold))

theorem Decision.mapExprs_id (d : Decision) : d.mapExprs id = d := by
  have hinput : TableInput.mapExprs id = id := by
    funext column
    simp [TableInput.mapExprs]
  have hrow : Row.mapExprs id = id := by
    funext row
    simp [Row.mapExprs]
  have hstep : Step.mapExprs id = id := by
    funext step
    obtain ⟨name, id, sources, program⟩ := step
    cases program <;> simp [Step.mapExprs, Program.mapExprs, Table.mapExprs, hinput, hrow]
  simp [Decision.mapExprs, hstep]

theorem Host.keeps_self (host : Host Id) : host.Keeps host := by
  constructor
  · rfl
  · intro resolve hresolve
    refine ⟨resolve, hresolve, ?_⟩
    intro key d hd
    exact ⟨id, Expr.keeps_id, by rw [hd, Decision.mapExprs_id]⟩

theorem Host.keeps_folded (host : Host Id) : host.Keeps host.folded := by
  constructor
  · rfl
  · intro resolve hresolve
    refine ⟨fun key => pure ((resolve key).run.map (Decision.mapExprs Expr.fold)), ?_, ?_⟩
    · simp [folded, hresolve]
    · intro key d hd
      exact ⟨Expr.fold, Expr.keeps_fold, by simp [hd]⟩

section
variable {host host' : Host Id} (hhost : host.Keeps host')
  {nested nested' : Decision → Value → Id (Except RunError Result)}
  (hnested : ∀ {g d input r}, Expr.Keeps g → (nested d input).run = .ok r →
    (nested' (d.mapExprs g) input).run = .ok r)
include hhost hnested

theorem decisionOutcome_keeps {key : String} {input : Value} {o : Outcome}
    (h : (decisionOutcome host.resolver nested key input).run = .ok o) :
    (decisionOutcome host'.resolver nested' key input).run = .ok o := by
  cases hresolver : host.resolver with
  | none => simp [decisionOutcome, hresolver] at h
  | some resolve =>
    obtain ⟨resolve', hresolver', hresolve⟩ := hhost.resolver resolve hresolver
    cases hd : (resolve key).run with
    | error e => simp [decisionOutcome, hresolver, hd] at h
    | ok d =>
      obtain ⟨g, hg, hd'⟩ := hresolve key d hd
      simp only [decisionOutcome, hresolver, Id.run_bind, hd, Id.run_pure] at h
      obtain ⟨r, hr, rfl⟩ := map_eq_ok.1 h
      simp [decisionOutcome, hresolver', hd', hnested hg hr]

theorem Step.outcome_mapExprs {g : Expr → Expr} (hg : Expr.Keeps g) {iteration : UInt8}
    {step : Step} {input : Value} {o : Outcome}
    (h : (step.outcome host nested iteration input).run = .ok o) :
    ((step.mapExprs g).outcome host' nested' iteration input).run = .ok o := by
  obtain ⟨id, name, sources, program⟩ := step
  cases program with
  | input schema => exact h
  | output => exact h
  | table t =>
    exact mapError_eq_ok.2 (Table.evaluate_mapExprs hg (mapError_eq_ok.1 h))
  | expressions entries passes =>
    exact mapError_eq_ok.2 (expressionsOutcome_mapExprs hg (mapError_eq_ok.1 h))
  | function source =>
    exact mapError_eq_ok.2 (functionOutcome_mapExprs hg (mapError_eq_ok.1 h))
  | custom component config =>
    rw [Step.mapExprs, Program.mapExprs, outcome, outcomeBy, hhost.handler]
    exact h
  | decision key => exact decisionOutcome_keeps hhost hnested h

end

theorem Context.run_mapExprs [Clock] {g : Expr → Expr}
    {outcome outcome' : Step → Value → Id (Except RunError Outcome)}
    (houtcome : ∀ {step input o}, (outcome step input).run = .ok o →
      (outcome' (step.mapExprs g) input).run = .ok o) {c c' : Context} {position : Nat}
    {steps : List Step} (h : (c.run outcome position steps).run = (c', none)) :
    (c.run outcome' position (steps.map (Step.mapExprs g))).run = (c', none) := by
  induction steps generalizing c position with
  | nil => exact h
  | cons step rest ih =>
    obtain ⟨d, hd, h⟩ := run_cons_eq_none.1 h
    refine run_cons_eq_none.2 ⟨d, ?_, ih h⟩
    obtain ⟨hpending, input, o, hinput, ho, rfl⟩ := advance_eq_none.1 hd
    refine advance_eq_none.2 ⟨hpending, input, o, ?_, houtcome ho, ?_⟩
    · simpa [inputOf, Step.mapExprs] using hinput
    · simp [finish, Step.visit, Step.mapExprs]

/-- Changes that keep values and undefined references keep results and traces. -/
theorem Decision.evaluateWithin_mapExprs [Clock] {host host' : Host Id} (hhost : host.Keeps host')
    {options : Options} {levels : Nat} {iteration : UInt8} {g : Expr → Expr} (hg : Expr.Keeps g)
    {d : Decision} {input : Value} {r : Result}
    (h : (d.evaluateWithin host options levels iteration input).run = .ok r) :
    ((d.mapExprs g).evaluateWithin host' options levels iteration input).run = .ok r := by
  induction levels generalizing iteration g d input r with
  | zero => cases h
  | succ levels ih =>
    obtain ⟨below, c, hbelow, hrun, rfl⟩ := evaluateWithin_eq_ok.1 h
    cases hbelow
    have hlength : (d.mapExprs g).steps.length = d.steps.length := List.length_map ..
    refine evaluateWithin_eq_ok.2 ⟨levels, c, rfl, ?_, rfl⟩
    rw [hlength]
    exact Context.run_mapExprs (fun ho => Step.outcome_mapExprs hhost (fun hg hr => ih hg hr) hg ho)
      hrun

/-- Folding neither prevents nor enables compilation, and a decision that has a result as written
has the same result and the same trace when it is folded, whether its sub-decisions are folded or
not. Each expression keeps its value and an undefined reference. -/
theorem folding_keeps_results [Clock] (c : Compiler) (d : Document) (key : Option String)
    (p : Decision) (h : c.compile d key = .ok p) :
    (∃ written folded, (Compiler.mk false).compile d key = .ok written ∧
      (Compiler.mk true).compile d key = .ok folded ∧
      ∀ (host : Host Id) (options : Options) (iteration : UInt8) (input : Value) (r : Result),
        (written.evaluateAt host options iteration input).run = .ok r →
          (folded.evaluateAt host options iteration input).run = .ok r ∧
          (folded.evaluateAt host.folded options iteration input).run = .ok r) ∧
    ∀ (e : Expr) (s : Scope),
      (∀ v, e.eval s = .ok v → e.fold.eval s = .ok v) ∧
      ∀ name, e.eval s = .error (.undefined name) → e.fold.eval s = .error (.undefined name) := by
  refine ⟨?_, fun e s => ⟨fun v => Expr.eval_fold_of_ok, fun name => Expr.eval_fold_of_undefined⟩⟩
  rw [c.compile_eq_map] at h
  obtain ⟨written, hwritten, -⟩ := map_eq_ok.1 h
  have hfolded : (Compiler.mk true).compile d key = .ok (written.mapExprs Expr.fold) := by
    rw [Compiler.compile_eq_map, hwritten]
    rfl
  refine ⟨written, written.mapExprs Expr.fold, hwritten, hfolded, ?_⟩
  intro host options iteration input r hr
  exact ⟨Decision.evaluateWithin_mapExprs host.keeps_self Expr.keeps_fold hr,
    Decision.evaluateWithin_mapExprs host.keeps_folded Expr.keeps_fold hr⟩

/-- A table with a rate for one tier and a default, both written as calculations. -/
def rateDocument : Document where
  nodes := [
    ⟨"in", "Request", .input none⟩,
    ⟨"rate", "Rate", .table {
      policy := .first
      inputs := [⟨"tier", "Tier", some "customer.tier"⟩]
      outputs := [⟨"rate", "Rate", some "rate"⟩]
      rules := [
        ⟨none, false, none, [("rate", .string "0.1 * 2"), ("tier", .string "'go' + 'ld'")]⟩,
        ⟨none, true, none, [("rate", .string "1 > 2 ? 1 : base ?? 0")]⟩]
      passThrough := false }⟩,
    ⟨"out", "Response", .output⟩]
  edges := [.between "in" "rate", .between "rate" "out"]

theorem folding_keeps_rates :
    (Compiler.standard.compile rateDocument none).isOk ∧
    ∃ written folded, (Compiler.mk false).compile rateDocument none = .ok written ∧
      (Compiler.mk true).compile rateDocument none = .ok folded ∧
      ∀ (host : Host Id) (options : Options) (iteration : UInt8) (input : Value) (r : Result),
        (written.evaluateAt host options iteration input).run = .ok r →
          (folded.evaluateAt host options iteration input).run = .ok r ∧
          (folded.evaluateAt host.folded options iteration input).run = .ok r := by
  have hok : (Compiler.standard.compile rateDocument none).isOk := by decide +kernel
  refine ⟨hok, ?_⟩
  cases h : Compiler.standard.compile rateDocument none with
  | error e => rw [h] at hok; cases hok
  | ok p => exact (folding_keeps_results .standard rateDocument none p h).1

end RuleGraph

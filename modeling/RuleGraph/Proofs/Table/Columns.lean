import RuleGraph.Proofs.Decision.WellFormed
import RuleGraph.Run.Table
/-!
# No column of a table is left out

The cells of a row are paired with the columns of its table. As there are as many of them, a row
matches only if each of its tests holds, and has an output only if each of its cells has a value.
-/
namespace RuleGraph

theorem testsHold_eq_true {s : Scope} {tests : List (Option Expr)} {subjects : List (Option Value)}
    (h : tests.length = subjects.length) :
    testsHold s tests subjects = .ok true ↔
      ∀ (i : Nat) (test : Expr), tests[i]? = some (some test) →
        ∃ subject, subjects[i]? = some subject ∧
          test.holds ((subject.map s.withSubject).getD s) = .ok true := by
  induction tests generalizing subjects with
  | nil => simp [testsHold]
  | cons cell tests ih =>
    cases subjects with
    | nil => cases h
    | cons subject subjects =>
      have hrest := ih (Nat.succ.inj h)
      cases cell with
      | none =>
        rw [testsHold, hrest]
        constructor
        · intro hholds i test htest
          cases i with
          | zero => cases htest
          | succ i => exact hholds i test htest
        · intro hholds i
          exact hholds (i + 1)
      | some first =>
        rw [testsHold]
        constructor
        · intro hholds i test htest
          obtain ⟨held, hfirst, hholds⟩ := bind_eq_ok.1 hholds
          cases held with
          | false => cases hholds
          | true =>
            cases i with
            | zero =>
              cases htest
              exact ⟨subject, rfl, hfirst⟩
            | succ i => exact hrest.1 hholds i test htest
        · intro hholds
          obtain ⟨_, ⟨⟩, hfirst⟩ := hholds 0 first rfl
          rw [hfirst]
          exact hrest.2 fun i => hholds (i + 1)

theorem exists_rowOutput_iff {s : Scope} {columns : List TableOutput} {cells : List (Option Expr)}
    (h : columns.length = cells.length) (output : Value) :
    (∃ v, rowOutput s columns cells output = .ok v) ↔
      ∀ cell, some cell ∈ cells → ∃ v, cell.eval s = .ok v := by
  induction columns generalizing cells output with
  | nil =>
    cases cells with
    | nil => simp [rowOutput]
    | cons cell cells => cases h
  | cons column columns ih =>
    cases cells with
    | nil => cases h
    | cons cell cells =>
      have hrest := ih (Nat.succ.inj h)
      cases cell with
      | none => simp [rowOutput, hrest]
      | some first =>
        rw [rowOutput]
        cases hfirst : first.eval s with
        | error e => simp [hfirst]
        | ok v => simp [hfirst, hrest]

/-- A row of which no cell is left out when it is paired with the columns of its table. -/
structure Table.Pairs (t : Table) (row : Row) (s : Scope) (subjects : List (Option Value)) :
    Prop where
  tests : (row.conditions.zip subjects).unzip = (row.conditions, subjects)
  cells : (t.outputs.zip row.outputs).unzip = (t.outputs, row.outputs)
  matches_iff : testsHold s row.conditions subjects = .ok true ↔
    ∀ (i : Nat) (test : Expr), row.conditions[i]? = some (some test) →
      ∃ subject, subjects[i]? = some subject ∧
        test.holds ((subject.map s.withSubject).getD s) = .ok true
  output_iff : (∃ v, rowOutput s t.outputs row.outputs .empty = .ok v) ↔
    ∀ cell, some cell ∈ row.outputs → ∃ v, cell.eval s = .ok v

theorem Table.WellFormed.pairs {t : Table} (h : t.WellFormed) {s : Scope}
    {subjects : List (Option Value)} (hsubjects : t.inputs.mapM (·.subject s) = .ok subjects)
    {row : Row} (hrow : row ∈ t.rows) : t.Pairs row s subjects := by
  have htests : row.conditions.length = subjects.length := by
    rw [h.conditions row hrow, length_of_mapM_eq_ok hsubjects]
  have hcells := (h.outputs row hrow).symm
  exact ⟨List.unzip_zip htests, List.unzip_zip hcells, testsHold_eq_true htests,
    exists_rowOutput_iff hcells .empty⟩

end RuleGraph

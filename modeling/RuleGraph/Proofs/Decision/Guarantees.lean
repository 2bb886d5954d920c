import RuleGraph.Proofs.Run.Faults
import RuleGraph.Proofs.Table.Columns
/-!
# What compilation guarantees

A compiled decision is well formed, so its evaluation never takes a step that the progress of its
nodes does not allow, evaluates each node at most once and leaves no column of a table out.
-/
namespace RuleGraph
namespace Compiler

/-- A compiled decision is well formed. In its tables no cell is left out, it is evaluated without a
fault, and its nodes come to their ends one after another, up to the first that fails. -/
theorem compile_orderly [Clock] {σ : Type} (c : Compiler) (d : Document) (key : Option String)
    (p : Decision) (h : c.compile d key = .ok p) :
    p.WellFormed ∧
    (∀ step ∈ p.steps, ∀ t, step.program = .table t →
      ∀ (s : Scope) (subjects : List (Option Value)),
        t.inputs.mapM (·.subject s) = .ok subjects → ∀ row ∈ t.rows, t.Pairs row s subjects) ∧
    ∀ (host : Host (StateM σ)) (inv : σ → Prop), host.Serves inv →
      ∀ (options : Options) (iteration : UInt8) (input : Value) (s : σ), inv s →
        (∀ e s', ((p.evaluateAt host options iteration input).run s).run = (.error e, s') →
          ¬e.IsFault) ∧
        (iteration < options.limit → ∃ (history : History) (s' : σ),
          ((p.history (Step.outcome host (Decision.evaluateAt host options (deeper iteration))
            iteration) options iteration input).run s).run = (history, s') ∧
          ((p.evaluateAt host options iteration input).run s).run = (history.result p, s') ∧
          history.Orderly 0 p.steps.length) := by
  have hwell := wellFormed_of_compile h
  refine ⟨hwell, ?_, ?_⟩
  · intro step hstep t ht s subjects hsubjects row hrow
    exact (hwell.tables step hstep t ht).pairs hsubjects hrow
  · intro host inv hhost options iteration input s hs
    refine ⟨fun e s' he => ?_, fun hlt => ?_⟩
    · exact (Decision.evaluateWithin_faultless hhost ⟨c, d, key, h⟩ _ input s _ s' hs he).2 e rfl
    · let outcome := Step.outcome host (Decision.evaluateAt host options (deeper iteration))
        iteration
      have horderly := ((Context.underway_initial input iteration options _).orderly outcome
        hwell.sourcesBefore s).1
      rw [Decision.evaluateAt_eq_history hlt]
      cases hhistory : ((p.history outcome options iteration input).run s).run with
      | mk history s' =>
        refine ⟨history, s', rfl, ?_, ?_⟩
        · simp [outcome, hhistory]
        · rw [List.length_nil, Nat.zero_add] at horderly
          have hfst : ((p.history outcome options iteration input).run s).run.1 = history :=
            congrArg Prod.fst hhistory
          exact hfst ▸ horderly

/-- The rate of a tier, as a decision of its own. -/
def tariffDocument : Document where
  nodes := [
    ⟨"in", "Customer", .input none⟩,
    ⟨"rate", "Rate", .function "tier == 'gold' ? 0.1 : 0.2"⟩,
    ⟨"out", "Response", .output⟩]
  edges := [.between "in" "rate", .between "rate" "out"]

/-- A table whose output decides which rate is looked up. -/
def quoteDocument : Document where
  nodes := [
    ⟨"in", "Request", .input none⟩,
    ⟨"ask", "Tariff", .decision "tariff"⟩,
    ⟨"tier", "Tier", .table {
      policy := .first
      inputs := [⟨"spent", "Spent", some "spent"⟩, ⟨"other", "Other", none⟩]
      outputs := [⟨"tier", "Tier", some "tier"⟩]
      rules := [
        ⟨none, false, none, [("spent", .string "> 100"), ("tier", .string "'gold'")]⟩,
        ⟨none, true, none, [("other", .string "true"), ("tier", .string "'basic'")]⟩]
      passThrough := true }⟩,
    ⟨"out", "Response", .output⟩]
  edges := [.between "in" "tier", .between "tier" "ask", .between "ask" "out"]

def countingHost (key : String) (child : Decision) : Host (StateM Nat) where
  handler := none
  resolver := some fun asked => do
    modify (· + 1)
    if asked = key then return .ok child else return .error (.resolution asked "unknown key")

theorem serves_countingHost (key : String) {child : Decision} (h : child.IsCompiled) :
    (countingHost key child).Serves fun _ => True := by
  rintro _ ⟨⟩ asked
  by_cases hasked : asked = key
  · simp only [hasked, if_true]
    refine ⟨?_, ?_⟩
    · rintro s _ _ - ⟨⟩
      exact ⟨trivial, nofun⟩
    · rintro s _ _ - ⟨⟩
      exact h
  · simp only [hasked, if_false]
    refine ⟨?_, ?_⟩
    · rintro s _ _ - ⟨⟩
      refine ⟨trivial, ?_⟩
      rintro _ ⟨⟩ ⟨_, ⟨⟩⟩
    · rintro s _ _ - ⟨⟩

theorem quoteDocument_orderly :
    (standard.compile quoteDocument none).isOk ∧
    (standard.compile tariffDocument (some "tariff")).isOk ∧
    ∃ p child, standard.compile quoteDocument none = .ok p ∧
      standard.compile tariffDocument (some "tariff") = .ok child ∧ p.WellFormed ∧
      ∀ (input : Value) (s : Nat),
        let host := countingHost "tariff" child
        (∀ e s', ((p.evaluateAt host ⟨true, 2⟩ 0 input).run s).run = (.error e, s') →
          ¬e.IsFault) ∧
        ∃ (history : History) (s' : Nat),
          ((p.evaluateAt host ⟨true, 2⟩ 0 input).run s).run = (history.result p, s') ∧
          history.Orderly 0 p.steps.length := by
  have hok : (standard.compile quoteDocument none).isOk := by decide +kernel
  have hchild : (standard.compile tariffDocument (some "tariff")).isOk := by decide +kernel
  refine ⟨hok, hchild, ?_⟩
  cases h : standard.compile quoteDocument none with
  | error e => rw [h] at hok; cases hok
  | ok p =>
    cases hc : standard.compile tariffDocument (some "tariff") with
    | error e => rw [hc] at hchild; cases hchild
    | ok child =>
      obtain ⟨hwell, -, heval⟩ := @compile_orderly _ Nat standard quoteDocument none p h
      refine ⟨p, child, rfl, rfl, hwell, fun input s => ?_⟩
      obtain ⟨hfault, horderly⟩ := heval _ _ (serves_countingHost "tariff" ⟨_, _, _, hc⟩)
        ⟨true, 2⟩ 0 input s trivial
      obtain ⟨history, s', -, hrun, hcourse⟩ := horderly (by decide)
      exact ⟨hfault, history, s', hrun, hcourse⟩

end Compiler
end RuleGraph

import RuleGraph.Engine.Standalone
import RuleGraph.Proofs.Decision.WellFormed
import RuleGraph.Proofs.Expr.Ordered
import RuleGraph.Proofs.Folding.Compile
import RuleGraph.Proofs.Run.History
/-!
# Decisions of a single function

A decision that passes its context to one function and the value of the function on to its output
gives what the function gives on its own, whatever the context and the value are: merging them into
nothing leaves them as they are. A failure is that of the function, under the id of its node.
-/
namespace RuleGraph

namespace Context
variable [Clock] {m : Type → Type} [Monad m] [LawfulMonad m]
  {outcome : Step → Value → m (Except RunError Outcome)} {c : Context}
  {input nodeInput : Value} {outputs : List Value} {position left : Nat} {step : Step}

section
variable (h : c.Underway input outputs (left + 1)) (hposition : outputs.length = position)
  (hsources : ∀ source ∈ step.sources, source < position)
  (hinput : step.inputFrom input outputs = nodeInput)
include h hposition hsources hinput

theorem Underway.run_of_ok {o : Outcome} (ho : outcome step nodeInput = pure (.ok o))
    (rest : List Step) :
    c.run outcome position (step :: rest) =
        (c.finish position step nodeInput o).run outcome (position + 1) rest ∧
      (c.finish position step nodeInput o).Underway input (outputs ++ [o.output]) left := by
  subst hposition hinput
  refine ⟨?_, h.finish step _ o⟩
  rw [run, ← ending_advanceHistory, h.advanceHistory hsources]
  simp [ho]

theorem Underway.run_of_error {e : RunError} (he : outcome step nodeInput = pure (.error e))
    (rest : List Step) :
    ∃ c', c.run outcome position (step :: rest) = pure (c', some (e.within step.id)) := by
  subst hposition hinput
  refine ⟨(c.set outputs.length .evaluating).set outputs.length .failed, ?_⟩
  rw [run, ← ending_advanceHistory, h.advanceHistory hsources]
  simp [he]

end
end Context

/-- An input, a function and an output, each of which leads to the next one. -/
structure Document.IsPipeline (d : Document) (input fn output : Node) (source : String) :
    Prop where
  nodes : d.nodes = [input, fn, output]
  distinct : [input.id, fn.id, output.id].Nodup
  edges : ∃ first second,
    d.edges = [⟨first, input.id, fn.id⟩, ⟨second, fn.id, output.id⟩]
  input : input.content = .input none
  function : fn.content = .function source
  output : output.content = .output

def Node.step (node : Node) (sources : List Nat) (program : Program) : Step :=
  ⟨node.id, node.name, sources, program⟩

def Decision.pipeline (input fn output : Node) (e : Expr) (key : Option String) : Decision where
  steps := [input.step [] (.input none), fn.step [0] (.function e), output.step [1] .output]
  outputs := [2]
  key
  edgeCount := 2
  version := Compiler.version

namespace Document.IsPipeline
variable {d : Document} {input fn output : Node} {source : String}

theorem layout (h : d.IsPipeline input fn output source) :
    d.layout = .ok ⟨[0, 1, 2], [[], [0], [1]]⟩ := by
  obtain ⟨first, second, hedges⟩ := h.edges
  have hdistinct := h.distinct
  simp only [List.nodup_cons, List.mem_cons, List.not_mem_nil, or_false, not_or] at hdistinct
  obtain ⟨⟨hif, hio⟩, hfo, -⟩ := hdistinct
  have hrepeated : firstRepeated [] (d.nodes.map (·.id)) = none := by
    rw [h.nodes]
    exact firstRepeated_eq_none_iff.2 ⟨h.distinct, by simp⟩
  have hpairs : d.edges.mapM d.ends = .ok [(0, 1), (1, 2)] := by
    simp [hedges, ends, indexOf?, h.nodes, List.findIdx?_cons, hif, hio, hfo]
  have horder : Layout.ofEdges 3 [(0, 1), (1, 2)] = .ok ⟨[0, 1, 2], [[], [0], [1]]⟩ := by
    decide +kernel
  rw [Document.layout, hrepeated, hpairs]
  simp [hasKind, h.nodes, h.input, h.output, Content.kind, horder]

theorem compile (h : d.IsPipeline input fn output source) {e : Expr}
    (hparse : Expr.parse source = .ok e) (key : Option String) :
    Compiler.plain.compile d key = .ok (.pipeline input fn output e key) := by
  obtain ⟨first, second, hedges⟩ := h.edges
  have hfn : Compiler.plain.expression fn.id .source source = .ok e := by
    simp [Compiler.expression, hparse, Compiler.finish, Compiler.plain]
  have hsteps : [0, 1, 2].mapM (Compiler.plain.stepAt d ⟨[0, 1, 2], [[], [0], [1]]⟩) =
      .ok ((Decision.pipeline input fn output e key).steps.map some) := by
    rw [mapM_eq_ok_iff]
    simp [Compiler.stepAt, h.nodes, h.input, h.function, h.output, Compiler.program, hfn,
      Decision.pipeline, Node.step, List.idxOf_cons]
  rw [Compiler.compile, h.layout, ok_bind, hsteps, ok_bind, hedges]
  rfl

end Document.IsPipeline

section
variable [Clock] {m : Type → Type} [Monad m] [LawfulMonad m]

theorem run_pipeline (host : Host m) (options : Options) (input fn output : Node) {e : Expr}
    (key : Option String) (he : ∀ v ∈ e.literals, v.Ordered) {c : Value} (hc : c.Ordered)
    (nested : Decision → Value → m (Except RunError Result)) :
    let p := Decision.pipeline input fn output e key
    let start := Context.initial c 0 options p.steps.length
    let run := start.run (Step.outcome host nested 0) 0 p.steps
    (∀ v, e.eval (.ofRoot c) = .ok v →
      ∃ final, run = pure (final, none) ∧ final.mergedOutputs p.outputs = v) ∧
    (∀ err, e.eval (.ofRoot c) = .error err →
      ∃ final, run = pure (final, some (.inNode fn.id (.eval err)))) := by
  have hbegin := Context.underway_initial c 0 options 3
  have hnone : ∀ source ∈ (input.step [] (.input none)).sources, source < 0 := nofun
  have hrequest : Step.outcome host nested 0 (input.step [] (.input none)) c =
      pure (.ok (.plain c)) := rfl
  obtain ⟨hpassed, hfn⟩ := hbegin.run_of_ok rfl hnone rfl hrequest
    [fn.step [0] (.function e), output.step [1] .output]
  -- Merged into nothing, the context is what the function sees.
  have hseen : (fn.step [0] (.function e)).inputFrom c [c] = c := hc.mergeAll_singleton
  have hsources : ∀ source ∈ (fn.step [0] (.function e)).sources, source < 1 := by
    simp [Node.step]
  have houtcome : Step.outcome host nested 0 (fn.step [0] (.function e)) c =
      pure ((functionOutcome e c).mapError .eval) := rfl
  constructor
  · intro v hv
    rw [functionOutcome, hv] at houtcome
    obtain ⟨hdone, houtput⟩ := hfn.run_of_ok rfl hsources hseen houtcome [output.step [1] .output]
    -- So is its value for the output, and in the end for the result.
    have hmerged := (Expr.ordered_eval e _ he (.ofRoot hc) v hv).mergeAll_singleton
    have hresponse : Step.outcome host nested 0 (output.step [1] .output) v =
        pure (.ok (.plain v)) := rfl
    have hsources : ∀ source ∈ (output.step [1] .output).sources, source < 2 := by
      simp [Node.step]
    obtain ⟨hend, hall⟩ := houtput.run_of_ok rfl hsources hmerged hresponse []
    refine ⟨_, (hpassed.trans hdone).trans hend, ?_⟩
    rw [Context.mergedOutputs, funext hall.output?]
    exact hmerged
  · intro err herr
    rw [functionOutcome, herr] at houtcome
    obtain ⟨final, hfails⟩ := hfn.run_of_error rfl hsources hseen houtcome
      [output.step [1] .output]
    exact ⟨final, hpassed.trans hfails⟩

theorem evaluate_pipeline (host : Host m) (options : Options) (input fn output : Node) {e : Expr}
    (key : Option String) (he : ∀ v ∈ e.literals, v.Ordered) {c : Value} (hc : c.Ordered) :
    (∃ v trace, e.eval (.ofRoot c) = .ok v ∧
      (Decision.pipeline input fn output e key).evaluate host options c = pure (.ok ⟨v, trace⟩)) ∨
    ∃ err, e.eval (.ofRoot c) = .error err ∧
      (Decision.pipeline input fn output e key).evaluate host options c =
        pure (.error (.inNode fn.id (.eval err))) := by
  have hlimit : 0 < options.limit := UInt8.pos_iff_ne_zero.2 options.limit_ne_zero
  rw [Decision.evaluate, Decision.evaluateAt_of_lt_limit host hlimit]
  obtain ⟨hok, herror⟩ := run_pipeline host options input fn output key he hc
    (Decision.evaluateAt host options (deeper 0))
  cases hresult : e.eval (.ofRoot c) with
  | ok v =>
    obtain ⟨final, hrun, hvalue⟩ := hok v hresult
    exact .inl ⟨v, final.trace, rfl, by simp [hrun, Context.result, hvalue]⟩
  | error err =>
    obtain ⟨final, hrun⟩ := herror err hresult
    exact .inr ⟨err, rfl, by simp [hrun]⟩

end

/-- A decision of a single function, compiled without folding, evaluates to what the function
evaluates to in the context, and fails as the function does under the id of its node. Evaluating the
source without a decision is the same but for the form of the results. -/
theorem Document.IsPipeline.evaluates_function [Clock] {d : Document} {input fn output : Node}
    {source : String} (h : d.IsPipeline input fn output source) {e : Expr}
    (hparse : Expr.parse source = .ok e) (key : Option String) :
    ∃ p, Compiler.plain.compile d key = .ok p ∧
      ∀ {σ : Type} (host : Host (StateM σ)) (options : Options) (s : σ) (c : Value), c.Ordered →
        (∀ v, (∃ trace, ((p.evaluate host options c).run s).run = (.ok ⟨v, trace⟩, s)) ↔
          e.eval (.ofRoot c) = .ok v) ∧
        (∀ err, ((p.evaluate host options c).run s).run = (.error (.inNode fn.id (.eval err)), s) ↔
          e.eval (.ofRoot c) = .error err) ∧
        ∀ {α : Type} (decode : Json → Option α), Standalone.evaluate decode source c =
          match ((p.evaluate host options c.normalized).run s).run.1 with
          | .ok r => (r.value.convert decode).mapError .conversion
          | .error err => .error (.run err.root) := by
  have he (v : Value) (hv : v ∈ e.literals) : v.Ordered :=
    Value.ordered_of_isScalar (Expr.isScalar_of_parse hparse v hv)
  refine ⟨_, h.compile hparse key, fun host options s c hc => ?_⟩
  have hstandalone {α : Type} (decode : Json → Option α) : Standalone.evaluate decode source c =
      Standalone.finish decode (e.eval (.ofRoot c.normalized)) := by
    rw [Standalone.evaluate, hparse]
    rfl
  have hpure (r : Except RunError Result) : ((pure r : StateM _ _).run s).run = (r, s) := rfl
  refine ⟨fun v => ?_, fun err => ?_, fun decode => ?_⟩
  · rcases evaluate_pipeline host options input fn output key he hc with
      ⟨w, trace, hw, hrun⟩ | ⟨err, herr, hrun⟩
    · rw [hrun, hw, hpure]
      simp [eq_comm]
    · rw [hrun, herr, hpure]
      simp
  · rcases evaluate_pipeline host options input fn output key he hc with
      ⟨w, trace, hw, hrun⟩ | ⟨err', herr, hrun⟩
    · rw [hrun, hw, hpure]
      simp
    · rw [hrun, herr, hpure]
      simp
  · rw [hstandalone]
    rcases evaluate_pipeline host options input fn output key he hc.normalized with
      ⟨w, trace, hw, hrun⟩ | ⟨err, herr, hrun⟩
    · rw [hrun, hw, hpure]
      rfl
    · rw [hrun, herr, hpure]
      rfl

/-- The function `a + 1` between a request and a response. -/
def successorDocument : Document where
  nodes := [
    ⟨"in", "Request", .input none⟩,
    ⟨"fn", "Successor", .function "a + 1"⟩,
    ⟨"out", "Response", .output⟩]
  edges := [.between "in" "fn", .between "fn" "out"]

theorem successorDocument_isPipeline :
    successorDocument.IsPipeline ⟨"in", "Request", .input none⟩
      ⟨"fn", "Successor", .function "a + 1"⟩ ⟨"out", "Response", .output⟩ "a + 1" where
  nodes := rfl
  distinct := by decide
  edges := ⟨_, _, rfl⟩
  input := rfl
  function := rfl
  output := rfl

/-- The number that its function adds to `a`. -/
def successorSummand : Option Float :=
  match Expr.parse "a + 1" with
  | .ok (.binary (.field ["a"]) .add (.literal (.number x))) => some x
  | _ => none

/-- The decision has a value where the function has one, and fails where `a` is not there. -/
theorem successorDocument_evaluates :
    ∃ p, Compiler.plain.compile successorDocument none = .ok p ∧
      (∃ v trace, ((p.evaluate (.none : Host (StateM Unit)) .standard
        (.object [("a", .number 4)])).run ()).run = (.ok ⟨v, trace⟩, ()) ∧ v.equal (.number 5)) ∧
      ((p.evaluate (.none : Host (StateM Unit)) .standard .null).run ()).run =
        (.error (.inNode "fn" (.eval (.undefined "a"))), ()) := by
  have hcontext : (Value.object [("a", .number 4)]).Ordered := by
    refine .object (List.pairwise_singleton _ _) fun m hm => ?_
    rw [List.mem_singleton.1 hm]
    exact .number 4
  have hsum : successorSummand.any fun x => (4 + x).isFinite && 4 + x == 5 := by decide +kernel
  rw [successorSummand] at hsum
  split at hsum
  · next x hparse =>
    obtain ⟨p, hcompile, h⟩ := successorDocument_isPipeline.evaluates_function hparse none
    obtain ⟨hfinite, hfive⟩ := Bool.and_eq_true_iff.1 hsum
    have hvalue : (Expr.binary (.field ["a"]) .add (.literal (.number x))).eval
        (.ofRoot (.object [("a", .number 4)])) = .ok (.number (4 + x)) := if_pos hfinite
    obtain ⟨trace, hrun⟩ := ((h .none .standard () _ hcontext).1 _).2 hvalue
    exact ⟨p, hcompile, ⟨_, trace, hrun, hfive⟩, ((h .none .standard () .null .null).2.1 _).2 rfl⟩
  · cases hsum

end RuleGraph

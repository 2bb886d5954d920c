import Mathlib.Logic.Function.Iterate
import RuleGraph.Proofs.Run.Correspondence
import RuleGraph.Proofs.Run.Levels
/-!
# The calls of an evaluation

An evaluation of a decision calls itself for the decisions of its decision nodes, which the host
may choose as it likes. Here the recursion is taken as it stands, without a bound, and what it does
is noted: the nodes, the requests to the host and the depths of nested evaluations. The limit alone
makes it end.
-/
namespace RuleGraph

/-- What an evaluation does. -/
inductive Event where
  /-- A node of a decision at a depth is evaluated. -/
  | node (iteration : UInt8) (id : String)
  /-- A component of the host is asked. -/
  | request (asked : Request)
  /-- A node at a depth has its decision evaluated at another one. -/
  | nested (outer inner : UInt8)

/-- What lies below a limit: nodes and requests do, and nested evaluations are one level deeper than
the nodes that they are for. -/
def Event.Below (limit : UInt8) : Event → Prop
  | .node iteration _ => iteration < limit
  | .request asked => asked.iteration < limit
  | .nested outer inner => outer < limit ∧ inner.toNat = outer.toNat + 1

section
variable {m : Type → Type} [Monad m]

abbrev Watched (m : Type → Type) := StateT (List Event) m

def note (e : Event) : Watched m Unit :=
  modify (· ++ [e])

/-- The outcome of a node, where `evaluate` evaluates decisions at any depth. What is noted of a
request is what a component gets. -/
def Step.watch (host : Host m)
    (evaluate : UInt8 → Decision → Value → Watched m (Except RunError Result)) (iteration : UInt8)
    (step : Step) (input : Value) : Watched m (Except RunError Outcome) := do
  note (.node iteration step.id)
  let handler := host.handler.map fun handle request => do
    note (.request request)
    return handle request
  let resolver := host.resolver.map fun resolve key => StateT.lift (resolve key)
  let nested (child : Decision) (input : Value) := do
    let inner := deeper iteration
    note (.nested iteration inner)
    evaluate inner child input
  step.outcomeBy (customOutcome handler) (decisionOutcome resolver nested) iteration input

/-- One call of the recursion, where `evaluate` stands for the calls that it makes. -/
def Decision.call [Clock] (host : Host m) (options : Options)
    (evaluate : UInt8 → Decision → Value → Watched m (Except RunError Result)) (iteration : UInt8)
    (d : Decision) (input : Value) : Watched m (Except RunError Result) :=
  if options.limit ≤ iteration then return .error (.depthExceeded options.limit)
  else do
    let c := Context.initial input iteration options d.steps.length
    match ← c.run (Step.watch host evaluate iteration) 0 d.steps with
    | (_, some e) => return .error e
    | (c, none) => return .ok (c.result d)

end

section
variable {σ α β : Type} {P : Event → Prop}

/-- The first computation does what the second does, and notes only events of a kind. -/
def Watches (P : Event → Prop) (x : Watched (StateM σ) α) (y : StateM σ α) : Prop :=
  ∀ log s, ∃ events, ((x.run log).run s).run =
    (((y.run s).run.1, log ++ events), (y.run s).run.2) ∧ ∀ e ∈ events, P e

theorem watches_pure (a : α) : Watches (σ := σ) P (pure a) (pure a) :=
  fun log s => ⟨[], by simp⟩

theorem watches_lift (y : StateM σ α) : Watches P (StateT.lift y) y :=
  fun log s => ⟨[], by simp [StateT.run_lift]⟩

theorem Watches.bind {x : Watched (StateM σ) α} {y : StateM σ α}
    {f : α → Watched (StateM σ) β} {g : α → StateM σ β} (h : Watches P x y)
    (hf : ∀ a, Watches P (f a) (g a)) : Watches P (x >>= f) (y >>= g) := by
  intro log s
  obtain ⟨events, hx, hevents⟩ := h log s
  obtain ⟨later, hlater, hlaters⟩ := hf (y.run s).run.1 (log ++ events) (y.run s).run.2
  refine ⟨events ++ later, ?_, ?_⟩
  · simp [hx, hlater]
  · intro e he
    rcases List.mem_append.1 he with he | he
    · exact hevents e he
    · exact hlaters e he

theorem Watches.after_note {e : Event} (he : P e) {f : Unit → Watched (StateM σ) α}
    {y : StateM σ α} (h : Watches P (f ()) y) : Watches P (note e >>= f) y := by
  intro log s
  obtain ⟨events, hx, hevents⟩ := h (log ++ [e]) s
  refine ⟨e :: events, ?_, ?_⟩
  · simpa [note] using hx
  · simpa [he] using hevents

def watching (P : Event → Prop) : Correspondence (Watched (StateM σ)) (StateM σ) where
  Holds := Watches P
  pure := watches_pure
  bind := Watches.bind

/-- A node below the limit does what it does when it is not watched, if nested evaluations do. -/
theorem Step.watch_watches (host : Host (StateM σ)) {limit iteration : UInt8}
    (hlt : iteration < limit)
    {evaluate : UInt8 → Decision → Value → Watched (StateM σ) (Except RunError Result)}
    {nested : Decision → Value → StateM σ (Except RunError Result)}
    (hnested : ∀ child input,
      Watches (Event.Below limit) (evaluate (deeper iteration) child input) (nested child input))
    (step : Step) (input : Value) :
    Watches (Event.Below limit) (step.watch host evaluate iteration input)
      (step.outcome host nested iteration input) := by
  refine Watches.after_note (e := .node iteration step.id) hlt ?_
  refine Correspondence.holds_outcomeBy (R := watching _) (fun node input => ?_)
    (fun key input => ?_) step input
  · cases host.handler with
    | none => exact watches_pure _
    | some handle =>
      exact (Watches.after_note (e := .request ⟨node, input, iteration⟩) hlt (watches_pure _)).bind
        fun r => watches_pure _
  · cases host.resolver with
    | none => exact watches_pure _
    | some resolve =>
      refine (watches_lift (resolve key)).bind fun found => ?_
      cases found with
      | error e => exact watches_pure _
      | ok child =>
        exact (Watches.after_note (e := .nested iteration (deeper iteration))
          ⟨hlt, toNat_deeper hlt⟩ (hnested child input)).bind fun r => watches_pure _

namespace Decision
variable [Clock] (host : Host (StateM σ)) (options : Options)

/-- The recursion comes to the limit before it is unfolded more often than levels are left, so it
makes no difference what would be called beyond that. -/
theorem call_watches
    (other : UInt8 → Decision → Value → Watched (StateM σ) (Except RunError Result))
    {unfoldings : Nat} {iteration : UInt8}
    (h : options.limit.toNat - iteration.toNat < unfoldings) (d : Decision) (input : Value) :
    Watches (Event.Below options.limit) ((call host options)^[unfoldings] other iteration d input)
      (d.evaluateAt host options iteration input) := by
  induction unfoldings generalizing iteration d input with
  | zero => omega
  | succ unfoldings ih =>
    rw [Function.iterate_succ_apply', call]
    by_cases hle : options.limit ≤ iteration
    · rw [if_pos hle, evaluateAt_of_limit_le host hle]
      exact watches_pure _
    · have hlt := UInt8.not_le.1 hle
      have hdeeper := toNat_deeper hlt
      have hlevels := UInt8.lt_iff_toNat_lt.1 hlt
      have hnested := @ih (deeper iteration) (by omega)
      rw [if_neg hle, evaluateAt_of_lt_limit host hlt]
      refine (watching _).bind
        (Correspondence.holds_run (fun step _ => Step.watch_watches host hlt hnested step) _ 0)
          fun r => ?_
      obtain ⟨after, failure⟩ := r
      cases failure <;> exact watches_pure _

/-- An evaluation ends, whatever decisions the host gives for keys: if the recursion is unfolded
more often than levels are left, then what would be called beyond that is never called. Nodes and
requests lie below the limit, nested evaluations one level deeper than their nodes, and a call at
the limit does nothing but fail. -/
theorem evaluateAt_ends :
    (∀ (other : UInt8 → Decision → Value → Watched (StateM σ) (Except RunError Result))
      (unfoldings : Nat) (iteration : UInt8),
      options.limit.toNat - iteration.toNat < unfoldings →
      ∀ (d : Decision) (input : Value) (s : σ), ∃ events,
        ((((call host options)^[unfoldings] other iteration d input).run []).run s).run =
          ((((d.evaluateAt host options iteration input).run s).run.1, events),
            ((d.evaluateAt host options iteration input).run s).run.2) ∧
        ∀ e ∈ events, e.Below options.limit) ∧
    (∀ evaluate : UInt8 → Decision → Value → Watched (StateM σ) (Except RunError Result),
      evaluate = call host options evaluate →
      ∀ (iteration : UInt8) (d : Decision) (input : Value) (s : σ), ∃ events,
        (((evaluate iteration d input).run []).run s).run =
          ((((d.evaluateAt host options iteration input).run s).run.1, events),
            ((d.evaluateAt host options iteration input).run s).run.2) ∧
        ∀ e ∈ events, e.Below options.limit) ∧
    ∀ (evaluate : UInt8 → Decision → Value → Watched (StateM σ) (Except RunError Result))
      (iteration : UInt8), options.limit ≤ iteration → ∀ (d : Decision) (input : Value) (s : σ),
        (((call host options evaluate iteration d input).run []).run s).run =
          ((.error (.depthExceeded options.limit), []), s) ∧
        ((d.evaluateAt host options iteration input).run s).run =
          (.error (.depthExceeded options.limit), s) := by
  refine ⟨?_, ?_, ?_⟩
  · intro other unfoldings iteration h d input s
    obtain ⟨events, hrun, hevents⟩ := call_watches host options other h d input [] s
    exact ⟨events, by simpa using hrun, hevents⟩
  · intro evaluate hfixed iteration d input s
    obtain ⟨events, hrun, hevents⟩ :=
      call_watches host options evaluate (Nat.lt_succ_self _) d input [] s
    rw [Function.iterate_fixed hfixed.symm] at hrun
    exact ⟨events, by simpa using hrun, hevents⟩
  · intro evaluate iteration hle d input s
    rw [call, if_pos hle, evaluateAt_of_limit_le host hle]
    exact ⟨rfl, rfl⟩

end Decision
end

namespace Decision

def consultingDecision : Decision where
  steps := [
    ⟨"in", "Request", [], .input none⟩,
    ⟨"quote", "Quote", [0], .custom "quotes" .null⟩,
    ⟨"ask", "Ask", [1], .decision "again"⟩,
    ⟨"out", "Response", [2], .output⟩]
  outputs := [3]
  key := some "again"
  edgeCount := 3
  version := "1"

/-- A decision that asks for itself is evaluated at two depths and refused at the third. -/
theorem consultingDecision_ends :
    let host := passingHost consultingDecision
    let limit : UInt8 := 2
    let other : UInt8 → Decision → Value → Watched (StateM Nat) (Except RunError Result) :=
      fun _ _ _ => pure (.ok ⟨.null, none⟩)
    let request (iteration : UInt8) : Request :=
      ⟨⟨"quote", "Quote", "quotes", .null⟩, .empty, iteration⟩
    let log : List Event := [
      .node 0 "in", .node 0 "quote", .request (request 0), .node 0 "ask", .nested 0 1,
      .node 1 "in", .node 1 "quote", .request (request 1), .node 1 "ask", .nested 1 2]
    ((consultingDecision.evaluateAt host ⟨false, limit⟩ 0 .empty).run 0).run =
        (.error (.inNode "ask" (.depthExceeded limit)), 2) ∧
      ((((call host ⟨false, limit⟩)^[3] other 0 consultingDecision .empty).run []).run 0).run =
        ((.error (.inNode "ask" (.depthExceeded limit)), log), 2) ∧
      ∀ e ∈ log, e.Below limit := by
  intro host limit other request log
  have hevaluate : ((consultingDecision.evaluateAt host ⟨false, limit⟩ 0 .empty).run 0).run =
    (.error (.inNode "ask" (.depthExceeded limit)), 2) := rfl
  have hlog :
      ((((call host ⟨false, limit⟩)^[3] other 0 consultingDecision .empty).run []).run 0).run =
        ((.error (.inNode "ask" (.depthExceeded limit)), log), 2) := rfl
  obtain ⟨events, hrun, hevents⟩ :=
    (evaluateAt_ends host ⟨false, limit⟩).1 other 3 0 (by decide) consultingDecision .empty 0
  have hsame : log = events := congrArg (fun r => r.1.2) (hlog.symm.trans hrun)
  exact ⟨hevaluate, hlog, hsame ▸ hevents⟩

end Decision

end RuleGraph

import RuleGraph.Host.Request
import RuleGraph.Run.Context
import RuleGraph.Run.Table
/-!
# Evaluating decisions

The nodes of a decision are evaluated in their order until one fails. A decision node evaluates
another decision one level deeper; the levels that are left bound how far this goes, so a decision
may well lead back to itself.
-/
namespace RuleGraph

/-- What an evaluation can call on: components of the host, and decisions by their keys. Looking up
a decision may have effects. -/
structure Host (m : Type → Type) where
  handler : Option Handler
  resolver : Option (String → m (Except RunError Decision))

def Host.none {m : Type → Type} : Host m :=
  ⟨.none, .none⟩

def inputOutcome (schema : Option (List String)) (context : Value) : Outcome :=
  match schema with
  | none => .plain context
  | some names =>
    .plain (.record (names.filterMap fun name => (context.get? name).map (name, ·)))

/-- The values of the entries under their paths. An entry does not see the values of others. -/
def entriesOutput (s : Scope) : List (List String × Expr) → Value → Except EvalError Value
  | [], output => .ok output
  | (path, e) :: rest, output => do
    entriesOutput s rest (output.setPath path (← e.eval s))

def expressionsOutcome (entries : List (List String × Expr)) (passes : Bool) (input : Value) :
    Except EvalError Outcome := do
  return .plain (.overInput passes input (← entriesOutput (.ofRoot input) entries .empty))

def functionOutcome (source : Expr) (input : Value) : Except EvalError Outcome := do
  return .plain (← source.eval (.ofRoot input))

/-- The outcome of a decision node: the result of the decision, with its trace as the detail. -/
def Result.outcome (r : Result) : Outcome :=
  ⟨r.value, r.trace.map Entry.listToValue⟩

section
variable {m : Type → Type} [Monad m]

def customOutcome (handler : Option (Request → m (Except Failure Outcome))) (request : Request) :
    m (Except RunError Outcome) :=
  match handler with
  | none => pure (.error (.noHandler request.node.id))
  | some handle => do
    return (← handle request).mapError fun f => .component request.node.id f.message

def decisionOutcome (resolver : Option (String → m (Except RunError Decision)))
    (nested : Decision → Value → m (Except RunError Result)) (key : String) (input : Value) :
    m (Except RunError Outcome) :=
  match resolver with
  | none => pure (.error (.resolution key "no decision resolver is configured"))
  | some resolve => do
    match ← resolve key with
    | .error e => return .error e
    | .ok d => return (← nested d input).map Result.outcome

/-- The outcome of a node. `ask` hands a request to the host, and `descend` evaluates the decision
of a key. -/
def Step.outcomeBy (ask : Request → m (Except RunError Outcome))
    (descend : String → Value → m (Except RunError Outcome)) (iteration : UInt8) (step : Step)
    (input : Value) : m (Except RunError Outcome) :=
  match step.program with
  | .input schema => pure (.ok (inputOutcome schema input))
  | .output => pure (.ok (.plain input))
  | .table t => pure ((t.evaluate input).mapError .eval)
  | .expressions entries passes => pure ((expressionsOutcome entries passes input).mapError .eval)
  | .function source => pure ((functionOutcome source input).mapError .eval)
  | .custom component config => ask ⟨⟨step.id, step.name, component, config⟩, input, iteration⟩
  | .decision key => descend key input

def Step.outcome (host : Host m) (nested : Decision → Value → m (Except RunError Result)) :
    (iteration : UInt8) → Step → Value → m (Except RunError Outcome) :=
  outcomeBy (customOutcome (host.handler.map fun handle request => pure (handle request)))
    (decisionOutcome host.resolver nested)

def Context.inputOf (c : Context) (step : Step) : Except ProgressFault Value :=
  if step.program.kind = .input then .ok c.input else c.nodeInput step.sources

def Step.visit (step : Step) (position : Nat) (input : Value) (outcome : Outcome) : Visit :=
  ⟨step.id, step.name, step.program.kind, position, input, outcome.output, outcome.detail⟩

/-- The states that an evaluation goes through. -/
structure History where
  past : List Context
  last : Context
  failure : Option RunError

def History.ending : History → Context × Option RunError
  | ⟨_, last, failure⟩ => (last, failure)

@[simp] theorem History.ending_mk (past : List Context) (last : Context)
    (failure : Option RunError) : (History.mk past last failure).ending = (last, failure) := rfl

/-- One level deeper; the last depth is its own. -/
def deeper (iteration : UInt8) : UInt8 :=
  if iteration = 255 then 255 else iteration + 1

theorem toNat_deeper {iteration limit : UInt8} (h : iteration < limit) :
    (deeper iteration).toNat = iteration.toNat + 1 := by
  have hi := UInt8.lt_iff_toNat_lt.1 h
  have hl := limit.toNat_lt
  have hne : iteration ≠ 255 := by
    rintro rfl
    have : (255 : UInt8).toNat = 255 := rfl
    omega
  have hone : (1 : UInt8).toNat = 1 := rfl
  rw [deeper, if_neg hne, UInt8.toNat_add, hone]
  omega

variable [Clock]

def Context.advanceHistory (outcome : Step → Value → m (Except RunError Outcome)) (c : Context)
    (position : Nat) (step : Step) : m History :=
  match c.start position with
  | .error fault => pure ⟨[], c, some (.progress fault)⟩
  | .ok begun =>
    match begun.inputOf step with
    | .error fault => pure ⟨[c], begun, some (.progress fault)⟩
    | .ok input => do
      match ← outcome step input with
      | .error e => return ⟨[c, begun], begun.fail position, some (e.within step.id)⟩
      | .ok o =>
        let recorded := begun.record (step.visit position input o)
        match recorded.complete position o.output with
        | .error fault => return ⟨[c, begun], recorded, some (.progress fault)⟩
        | .ok done => return ⟨[c, begun, recorded], done, none⟩

def Context.advance (outcome : Step → Value → m (Except RunError Outcome)) (c : Context)
    (position : Nat) (step : Step) : m (Context × Option RunError) := do
  return (← c.advanceHistory outcome position step).ending

/-- The state after the nodes from a position on, or after the first that failed, and its error. -/
def Context.run (outcome : Step → Value → m (Except RunError Outcome)) (c : Context) :
    (position : Nat) → List Step → m (Context × Option RunError)
  | _, [] => pure (c, none)
  | position, step :: rest => do
    match ← c.advance outcome position step with
    | (c, some e) => return (c, some e)
    | (c, none) => c.run outcome (position + 1) rest

def Context.result (c : Context) (d : Decision) : Result :=
  ⟨c.mergedOutputs d.outputs, c.trace⟩

/-- Evaluates a decision with so many levels left. -/
def Decision.evaluateWithin (host : Host m) (options : Options) :
    (levels : Nat) → (iteration : UInt8) → Decision → Value → m (Except RunError Result)
  | 0, _, _, _ => pure (.error (.depthExceeded options.limit))
  | levels + 1, iteration, d, input => do
    let nested := evaluateWithin host options levels (deeper iteration)
    let c := Context.initial input iteration options d.steps.length
    match ← c.run (Step.outcome host nested iteration) 0 d.steps with
    | (_, some e) => return .error e
    | (c, none) => return .ok (c.result d)

def Decision.evaluateAt (host : Host m) (options : Options) (iteration : UInt8) (d : Decision)
    (input : Value) : m (Except RunError Result) :=
  d.evaluateWithin host options (options.limit.toNat - iteration.toNat) iteration input

theorem Decision.evaluateAt_of_limit_le (host : Host m) {options : Options} {iteration : UInt8}
    (h : options.limit ≤ iteration) (d : Decision) (input : Value) :
    d.evaluateAt host options iteration input = pure (.error (.depthExceeded options.limit)) := by
  have hle := UInt8.le_iff_toNat_le.1 h
  rw [evaluateAt, Nat.sub_eq_zero_of_le hle, evaluateWithin]

theorem Decision.evaluateAt_of_lt_limit (host : Host m) {options : Options} {iteration : UInt8}
    (h : iteration < options.limit) (d : Decision) (input : Value) :
    d.evaluateAt host options iteration input = (do
      let nested := evaluateAt host options (deeper iteration)
      let c := Context.initial input iteration options d.steps.length
      match ← c.run (Step.outcome host nested iteration) 0 d.steps with
      | (_, some e) => return .error e
      | (c, none) => return .ok (c.result d)) := by
  have hlt := UInt8.lt_iff_toNat_lt.1 h
  have hlevels : options.limit.toNat - iteration.toNat =
      (options.limit.toNat - (deeper iteration).toNat) + 1 := by
    rw [toNat_deeper h]
    omega
  rw [evaluateAt, hlevels, evaluateWithin]
  rfl

def Decision.evaluate (host : Host m) (options : Options) (d : Decision) (input : Value) :
    m (Except RunError Result) :=
  d.evaluateAt host options 0 input

end
end RuleGraph

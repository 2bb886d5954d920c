import RuleGraph.Decision.Compile
import RuleGraph.Engine.Config
import RuleGraph.Engine.Loader
import RuleGraph.Run.Evaluate
/-!
# The engine

An engine loads decisions by their keys, compiles them and evaluates them. It may keep what it has
compiled; what fails is never kept.
-/
namespace RuleGraph

/-- A compiled decision. Two are the same if one compilation made them. -/
structure Compiled where
  serial : Nat
  decision : Decision
  deriving Repr

structure Engine where
  config : Config
  loader : Option Loader
  handler : Option Handler
  kept : List (String × Compiled)
  loads : Nat
  compilations : Nat

/-- What the engine does, with its changes; they remain if it fails. -/
abbrev Engine.Action := ExceptT EngineError (StateM Engine)

namespace Engine

def create (config : Config) (loader : Option Loader) (handler : Option Handler) : Engine :=
  ⟨config, loader, handler, [], 0, 0⟩

def load (key : String) : Action (List UInt8) := do
  let engine ← getThe Engine
  match engine.loader with
  | none => throw (.noLoader key)
  | some load =>
    set { engine with loads := engine.loads + 1 }
    match load key with
    | .ok document => return document
    | .error f => throw (.load key f.message)

def number (d : Decision) : Action Compiled := do
  let engine ← getThe Engine
  set { engine with compilations := engine.compilations + 1 }
  return ⟨engine.compilations, d⟩

def keep (key : String) (d : Compiled) : Action Unit := do
  let engine ← getThe Engine
  if engine.config.caches then set { engine with kept := Members.insert key d engine.kept }

def decision (key : String) : Action Compiled := do
  match Members.get? key (← getThe Engine).kept with
  | some d => return d
  | none =>
    match Compiler.standard.compileBytes (← load key) (some key) with
    | .error cause => throw (.invalid key cause)
    | .ok d =>
      let d ← number d
      keep key d
      return d

def compile (document : List UInt8) : Action Compiled := do
  match Compiler.standard.compileBytes document none with
  | .error cause => throw (.compile cause)
  | .ok d => number d

def resolve (key : String) : StateM Engine (Except RunError Decision) := do
  match ← (decision key).run with
  | .ok d => return .ok d.decision
  | .error e => return .error (.resolution key e.resolutionMessage)

/-- Evaluates a decision. The context is taken in its JSON form. -/
def evaluate [Clock] (d : Compiled) (options : Options) (context : Value) : Action Result := do
  let host : Host (StateM Engine) := ⟨(← getThe Engine).handler, some resolve⟩
  match ← (d.decision.evaluate host options context.normalized : StateM Engine _) with
  | .ok result => return result
  | .error e => throw (.run e)

def clear (engine : Engine) : Engine :=
  { engine with kept := [] }

end Engine
end RuleGraph

import RuleGraph.Engine.Error
import RuleGraph.Engine.Path
import RuleGraph.Run.Options
import RuleGraph.Yaml.Reader
/-!
# Configuration of the engine

A configuration is written in JSON or YAML; every setting has a default.
-/
namespace RuleGraph

structure Config where
  maxDepth : UInt8
  trace : Bool
  caches : Bool
  deriving DecidableEq, Repr

namespace Config

def standard : Config :=
  ⟨1, false, false⟩

def options (c : Config) : Options :=
  ⟨c.trace, c.maxDepth⟩

def fields : List Field := [
  .named "default_max_depth",
  .named "default_trace",
  ⟨"cache_decisions", ["cache"]⟩]

open Form in
def decode {m : Type → Type} [Monad m] [MonadLiftT Option m] {α : Type} (form : Form m α) (a : α) :
    m Config := do
  let fields ← form.record fields a
  let maxDepth ← orDefault form.byte standard.maxDepth.toNat fields "default_max_depth"
  let trace ← orDefault form.switch standard.trace fields "default_trace"
  let caches ← orDefault form.switch standard.caches fields "cache_decisions"
  return ⟨.ofNat maxDepth, trace, caches⟩

def ofOption : Option Config → Except EngineError Config
  | some c => .ok c
  | none => .error .config

def ofJson (bytes : List UInt8) : Except EngineError Config :=
  ofOption (Json.decodeText decode bytes)

def ofYaml (bytes : List UInt8) : Except EngineError Config :=
  ofOption (Yaml.decodeText decode bytes)

/-- The configuration in a file, of which there are the bytes if it could be read. The name of the
file says if they are JSON. -/
def ofFile (name : String) (content : Option (List UInt8)) : Except EngineError Config :=
  match content with
  | none => .error .io
  | some bytes => if Path.extension? name = some "json" then ofJson bytes else ofYaml bytes

def toJson (c : Config) : Json :=
  .record [
    ("default_max_depth", .integer c.maxDepth.toNat),
    ("default_trace", .bool c.trace),
    ("cache_decisions", .bool c.caches)]

end Config
end RuleGraph

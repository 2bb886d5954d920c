import RuleGraph.Graph.Analysis
import RuleGraph.Run.Error
/-!
# Why the engine refuses
-/
namespace RuleGraph

inductive EngineError where
  | config
  | parse (cause : ParseError)
  | compile (cause : CompileError)
  | run (cause : RunError)
  | conversion (cause : ConversionError)
  | load (key message : String)
  | noLoader (key : String)
  | invalid (key : String) (cause : CompileError)
  | io
  deriving Repr

namespace EngineError

def message : EngineError → String
  | config => "Configuration error: the text is no configuration"
  | parse cause => "Parser error: " ++ cause.message
  | compile cause => "Compiler error: " ++ cause.message
  | run cause => "Runtime error: " ++ cause.message
  | conversion cause => "Conversion error: " ++ cause.message
  | load key message => s!"Failed to load decision '{key}': {message}"
  | noLoader key => s!"No loader configured, cannot load decision '{key}'"
  | invalid key cause => s!"Invalid decision '{key}': " ++ cause.message
  | io => "I/O error: the file cannot be read"

/-- The message when a decision node asked for the decision: its key is not named again. -/
def resolutionMessage : EngineError → String
  | load _ message => message
  | invalid _ cause => cause.message
  | e => e.message

end EngineError
end RuleGraph

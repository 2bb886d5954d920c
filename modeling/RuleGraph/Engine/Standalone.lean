import RuleGraph.Engine.Error
import RuleGraph.Template
/-!
# Expressions without a decision

Evaluates a single expression, test or template in a context, which is taken in its JSON form.
-/
namespace RuleGraph.Standalone
variable {α : Type}

def finish (decode : Json → Option α) (result : Except EvalError Value) : Except EngineError α := do
  let v ← result.mapError fun e => .run (.eval e)
  (v.convert decode).mapError .conversion

def evaluate (decode : Json → Option α) (source : String) (context : Value) :
    Except EngineError α := do
  let e ← (Expr.parse source).mapError .parse
  finish decode (e.eval (.ofRoot context.normalized))

def test (source : String) (context : Value) : Except EngineError Bool := do
  let e ← (Expr.parseCell source).mapError .parse
  (e.holds (.ofRoot context.normalized)).mapError fun e => .run (.eval e)

def render (decode : Json → Option α) (source : String) (context : Value) :
    Except EngineError α := do
  let template ← (Template.parse source).mapError .parse
  finish decode (template.render (.ofRoot context.normalized))

end RuleGraph.Standalone

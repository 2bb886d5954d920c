import RuleGraph.Host.Request
/-!
# Components by name
-/
namespace RuleGraph

structure Registry where
  handlers : List (String × Handler)

namespace Registry

def empty : Registry :=
  ⟨[]⟩

def register (r : Registry) (component : String) (handler : Handler) : Registry :=
  ⟨Members.insert component handler r.handlers⟩

def components (r : Registry) : List String :=
  r.handlers.map Prod.fst

def handle (r : Registry) : Handler := fun request =>
  match Members.get? request.node.component r.handlers with
  | some handler => handler request
  | none => .error [s!"no handler registered for component '{request.node.component}'"]

end Registry
end RuleGraph

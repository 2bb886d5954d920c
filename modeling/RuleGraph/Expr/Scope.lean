import RuleGraph.Expr.EvalError
import RuleGraph.Value.Path
/-!
# What an expression sees

The context that its fields are members of, the subject `$` and the element `#`.
-/
namespace RuleGraph

/-- Where a path leads in a value; null as soon as a segment leads nowhere. -/
def Value.reach (v : Value) : List String → Value
  | [] => v
  | segment :: rest =>
    match v.child segment with
    | some w => w.reach rest
    | none => .null

/-- The member of an object that a path begins with, and where the rest leads from there. Only the
first segment must be there. -/
def Value.field (root : Value) : List String → Except EvalError Value
  | [] => .ok .null
  | first :: rest =>
    match root.get? first with
    | none => .error (.undefined first)
    | some v => .ok (v.reach rest)

theorem Value.reach_eq_getD (v : Value) (path : List String) :
    v.reach path = (v.getPath path).getD .null := by
  induction path generalizing v with
  | nil => rfl
  | cons segment rest ih =>
    rw [reach, getPath]
    cases v.child segment with
    | none => rfl
    | some w => exact ih w

structure Scope where
  root : Value
  subject? : Option Value
  element? : Option Value

namespace Scope

def ofRoot (root : Value) : Scope :=
  ⟨root, none, none⟩

def withSubject (s : Scope) (subject : Value) : Scope :=
  { s with subject? := some subject }

def withElement (s : Scope) (element : Value) : Scope :=
  { s with element? := some element }

/-- The subject that is bound, or else the member `$` of the context. -/
def subject (s : Scope) : Except EvalError Value :=
  match s.subject?.or (s.root.get? "$") with
  | some v => .ok v
  | none => .error (.undefined "$")

def element (s : Scope) : Except EvalError Value :=
  match s.element? with
  | some v => .ok v
  | none => .error (.undefined "#")

end Scope
end RuleGraph

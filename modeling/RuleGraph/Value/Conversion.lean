import RuleGraph.Json.Variant
import RuleGraph.Value.Json
/-!
# Values as data of the host

A value is converted through its JSON form. An integer is one only if it is written without a
fraction.
-/
namespace RuleGraph

/-- Why a value is not what the host wants. -/
inductive ConversionError where
  | kind (expected actual : String)
  | shape
  deriving DecidableEq, Repr

def ConversionError.message : ConversionError → String
  | kind expected actual => s!"Type error: expected {expected}, got {actual}"
  | shape => "Conversion error: the data has another shape"

namespace Json

def int64? : Json → Option Int
  | .integer n =>
    if -Int.ofNat (Nat.pow 2 63) ≤ n ∧ n < Int.ofNat (Nat.pow 2 63) then some n else none
  | _ => none

def float? : Json → Option Float
  | .integer n => some (Float.ofInt n)
  | .decimal x => some x
  | _ => none

def members? : Json → Option (List (String × Json))
  | .object members => some members
  | _ => none

def convert {α : Type} (decode : Json → Option α) (j : Json) : Except ConversionError α :=
  match decode j with
  | some a => .ok a
  | none => .error .shape

end Json

namespace Value

def toBool : Value → Except ConversionError Bool
  | .bool b => .ok b
  | v => .error (.kind "bool" v.kind)

def convert {α : Type} (decode : Json → Option α) (v : Value) : Except ConversionError α :=
  v.toJson.convert decode

end Value

inductive HostType where
  | any
  | int64
  | byte
  | float
  | bool
  | string
  | optionalInt64
  | floats
  | strings
  | members
  deriving DecidableEq, Repr

namespace HostType

def ofInt (n : Int) : Value :=
  .number (Float.ofInt n)

/-- The data of a type that a tree holds, as a value. -/
def decode : HostType → Json → Option Value
  | any, j => some (.ofJson j)
  | int64, j => j.int64?.map ofInt
  | byte, j => (Json.natBelow 256 j).map fun n => ofInt n
  | float, j => j.float?.map .number
  | bool, j => j.bool?.map .bool
  | string, j => j.string?.map .string
  | optionalInt64, j => (Json.optional Json.int64? (some j)).map fun n => (n.map ofInt).getD .null
  | floats, j => do return .array ((← (← j.array?).mapM Json.float?).map .number)
  | strings, j => j.strings?.map .strings
  | members, j => j.members?.map fun members => .ofJson (.object members)

end HostType
end RuleGraph

import RuleGraph.Expr.EvalError
import RuleGraph.Number.Reading
import RuleGraph.Text.Pieces
import RuleGraph.Value.Json
/-!
# Operations on values

The operators whose operands are both evaluated. A number that is not finite is never a result.
-/
namespace RuleGraph

def Value.ofFinite (x : Float) : Except EvalError Value :=
  if x.isFinite then .ok (.number x) else .error (.type (.outOfRange x))

def expectBool (operator : String) : Value → Except EvalError Bool
  | .bool b => .ok b
  | v => .error (.type (.notBoolean operator v.kind))

namespace Operation

/-- The numeric result of an arithmetic operator, before it is known to be finite. -/
def number (op : Operator) (x y : Float) : Float :=
  match op with
  | .add => x + y
  | .sub => x - y
  | .mul => x * y
  | .div => x / y
  | .mod => Number.remainder x y
  | _ => Float.pow x y

/-- Whether two values are joined as texts: one is a text and none is null. -/
def joins (v w : Value) : Bool :=
  match v, w with
  | .string _, w => !w.isNull
  | v, .string _ => !v.isNull
  | _, _ => false

def arithmetic (op : Operator) (v w : Value) : Except EvalError Value :=
  match v, w with
  | .number x, .number y =>
    if (op = .div ∨ op = .mod) ∧ y == 0 then .error .divisionByZero
    else Value.ofFinite (number op x y)
  | v, w =>
    if op = .add ∧ joins v w then .ok (.string (v.text ++ w.text))
    else .error (.type (.operands op v.kind w.kind))

def ordered (op : Operator) (lt le gt ge : Bool) : Bool :=
  match op with
  | .lt => lt
  | .le => le
  | .gt => gt
  | _ => ge

/-- Any two values can be equal. Only numbers and texts have an order, in which nothing is before or
after null. -/
def compare (op : Operator) (v w : Value) : Except EvalError Bool :=
  match op with
  | .eq => .ok (v.equal w)
  | .ne => .ok !(v.equal w)
  | _ =>
    match v, w with
    | .null, _ => .ok false
    | _, .null => .ok false
    | .number x, .number y => .ok (ordered op (x < y) (x ≤ y) (y < x) (y ≤ x))
    | .string s, .string t => .ok (ordered op (s < t) (!decide (t < s)) (t < s) (!decide (s < t)))
    | v, w => .error (.type (.incomparable v.kind w.kind op))

/-- Whether a collection has a member: an item, a key, or a part of a text. Null has none. -/
def contains (op : Operator) (needle : Value) : Value → Except EvalError Bool
  | .array items => .ok (items.any needle.equal)
  | .object members =>
    match needle with
    | .string key => .ok (Members.contains key members)
    | _ => .ok false
  | .string s =>
    match needle with
    | .string part => .ok (Text.contains s part)
    | v => .error (.type (.searchInString v.kind))
  | .null => .ok false
  | v => .error (.type (.noCollection op v.kind))

/-- Whether a value lies between two numbers. Null does not, and only a number can. -/
def inInterval (needle start stop : Value) (startIncluded stopIncluded : Bool) :
    Except EvalError Bool :=
  match start, stop with
  | .number a, .number b =>
    match needle with
    | .number x =>
      .ok ((if startIncluded then a ≤ x else a < x) && (if stopIncluded then x ≤ b else x < b))
    | .null => .ok false
    | v => .error (.type (.outsideNumbers v.kind))
  | v, w => .error (.type (.boundKinds v.kind w.kind))

def membership (op : Operator) (found : Bool) : Value :=
  .bool (if op = .notMember then !found else found)

def unary (op : UnaryOperator) (v : Value) : Except EvalError Value :=
  match op, v with
  | .not, .bool b => .ok (.bool !b)
  | .negate, .number x => .ok (.number (-x))
  | .not, v => .error (.type (.notOperand v.kind))
  | .negate, v => .error (.type (.negateOperand v.kind))

/-- The item, character or member that a key stands for, and null if there is none. A negative
number counts from the end of an array. -/
def index (v key : Value) : Value :=
  match v, key with
  | .array items, .number x =>
    if Number.isInteger x then
      let n := Number.toInt x
      let position := if n < 0 then items.length + n else n
      if position < 0 then .null else (items[position.toNat]?).getD .null
    else .null
  | .object members, .string key => (Members.get? key members).getD .null
  | .string s, .number x =>
    if Number.isInteger x && 0 ≤ x then
      match s.toList[(Number.toInt x).toNat]? with
      | some c => .string (String.singleton c)
      | none => .null
    else .null
  | _, _ => .null

end Operation
end RuleGraph

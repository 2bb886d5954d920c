import RuleGraph.Expr.Operation
import RuleGraph.Text.Blank
import RuleGraph.Text.Casing
/-!
# Built-in functions on values

What a function gives for the values of its arguments, and what the functions with a closure give
for the results of the closure on each element.
-/
namespace RuleGraph.Builtin

def refuse {α : Type} (f : Builtin) (fault : ArgumentFault) : Except EvalError α :=
  .error (.argument f fault)

def mismatch {α : Type} (f : Builtin) (expected : String) (v : Value) : Except EvalError α :=
  f.refuse (.kind expected v.kind)

def text (f : Builtin) : Value → Except EvalError String
  | .string s => .ok s
  | v => f.mismatch "string" v

def numeral (f : Builtin) : Value → Except EvalError Float
  | .number x => .ok x
  | v => f.mismatch "number" v

def items (f : Builtin) : Value → Except EvalError (List Value)
  | .array items => .ok items
  | v => f.mismatch "array" v

/-- The numbers of an array that is the only argument, or of the arguments themselves. -/
def numerals (f : Builtin) (args : List Value) : Except EvalError (List Float) :=
  match args with
  | [.array items] => items.mapM f.numeral
  | _ => args.mapM f.numeral

/-- The sum from left to right. It begins with the zero that changes no number. -/
def total (xs : List Float) : Float :=
  xs.foldl (· + ·) (-0.0)

def pick (choose : Float → Float → Float) : List Float → Value
  | [] => .null
  | x :: xs => .number (xs.foldl choose x)

/-- Rounds to a number of decimal digits; a number that cannot be scaled stays as it is. -/
def roundTo (x digits : Float) : Value :=
  let factor := Number.powerOfTen (Number.toIntWithin 308 digits)
  let scaled := x * factor
  .number (if scaled.isFinite then Number.round scaled / factor else x)

def toNumber (f : Builtin) : Value → Except EvalError Value
  | .number x => .ok (.number x)
  | .bool b => .ok (.number (if b then 1 else 0))
  | .string s =>
    match Number.read (Text.trimChars s.toList) with
    | Option.some x => if x.isFinite then .ok (.number x) else f.refuse (.notNumber s)
    | Option.none => f.refuse (.notNumber s)
  | v => f.mismatch "number, bool or string" v

def toBool (f : Builtin) : Value → Except EvalError Value
  | .bool b => .ok (.bool b)
  | .string "true" => .ok (.bool true)
  | .string "false" => .ok (.bool false)
  | v => f.mismatch "bool or 'true'/'false'" v

def toText : Value → String
  | .number x => String.ofList (Number.text x)
  | v => v.text

def size (f : Builtin) : Value → Except EvalError Nat
  | .string s => .ok s.length
  | .array items => .ok items.length
  | .object members => .ok members.length
  | v => f.mismatch "string, array or object" v

def holds (f : Builtin) (v part : Value) : Except EvalError Bool :=
  match v with
  | .string s => do return Text.contains s (← f.text part)
  | .array items => .ok (items.any (·.equal part))
  | v => f.mismatch "string or array" v

def membersOf (f : Builtin) : Value → Except EvalError (List (String × Value))
  | .object members => .ok members
  | v => f.mismatch "object" v

def flattened : Value → List Value
  | .array items => items
  | v => [v]

/-- The result for values of arguments. Their number has been checked, and what is too much is not
read. -/
def apply (f : Builtin) (args : List Value) : Except EvalError Value :=
  match f, args with
  | .len, v :: _ => do return .number (Float.ofNat (← f.size v))
  | .upper, v :: _ => do return .string (Text.upper (← f.text v))
  | .lower, v :: _ => do return .string (Text.lower (← f.text v))
  | .trim, v :: _ => do return .string (Text.trim (← f.text v))
  | .startsWith, v :: w :: _ => do
    let s ← f.text v
    return .bool (Text.startsWith s (← f.text w))
  | .endsWith, v :: w :: _ => do
    let s ← f.text v
    return .bool (Text.endsWith s (← f.text w))
  | .contains, v :: w :: _ => do return .bool (← f.holds v w)
  | .join, v :: w :: _ => do
    let items ← f.items v
    return .string ((← f.text w).intercalate (items.map Value.text))
  | .split, v :: w :: _ => do
    let s ← f.text v
    return .strings (Text.split s (← f.text w))
  | .abs, v :: _ => do return .number (← f.numeral v).abs
  | .floor, v :: _ => do return .number (Number.floor (← f.numeral v))
  | .ceil, v :: _ => do return .number (Number.ceil (← f.numeral v))
  | .round, [v] => do return roundTo (← f.numeral v) 0
  | .round, v :: w :: _ => do
    let x ← f.numeral v
    return roundTo x (← f.numeral w)
  | .min, args => do return pick Number.least (← f.numerals args)
  | .max, args => do return pick Number.greatest (← f.numerals args)
  | .sum, args => do Value.ofFinite (total (← f.numerals args))
  | .avg, args => do
    match ← f.numerals args with
    | [] => return .null
    | xs => Value.ofFinite (total xs / Float.ofNat xs.length)
  | .number, v :: _ => f.toNumber v
  | .string, v :: _ => .ok (.string (toText v))
  | .bool, v :: _ => f.toBool v
  | .isNull, v :: _ => .ok (.bool v.isNull)
  | .keys, v :: _ => do return .strings ((← f.membersOf v).map Prod.fst)
  | .values, v :: _ => do return .array ((← f.membersOf v).map Prod.snd)
  | .flatten, v :: _ => do return .array ((← f.items v).flatMap flattened)
  | _, args => if f.isClosure then f.refuse .noClosure else f.refuse (.missing args.length)

/-- The elements that a closure runs over; null has none. -/
def elements (f : Builtin) : Value → Except EvalError (List Value)
  | .array items => .ok items
  | .null => .ok []
  | v => f.mismatch "array" v

def truth (f : Builtin) : Value → Except EvalError Bool
  | .bool b => .ok b
  | v => f.mismatch "bool closure result" v

/-- The elements that pass a test, which runs on all of them. -/
def keep (test : Value → Except EvalError Bool) : List Value → Except EvalError (List Value)
  | [] => .ok []
  | v :: rest => do
    let passes ← test v
    let kept ← keep test rest
    return if passes then v :: kept else kept

/-- How many elements pass a test, which runs on all of them, with `n` counted before. -/
def countFrom (test : Value → Except EvalError Bool) : (n : Nat) → List Value → Except EvalError Nat
  | n, [] => .ok n
  | n, v :: rest => do countFrom test (if ← test v then n + 1 else n) rest

/-- Whether no element passes a test, which runs up to the first that does. -/
def noneOf (test : Value → Except EvalError Bool) : List Value → Except EvalError Bool
  | [] => .ok true
  | v :: rest => do if ← test v then return false else noneOf test rest

/-- The result for a closure that is run on elements from left to right, no further than needed. -/
def applyClosure (f : Builtin) (run : Value → Except EvalError Value) (elements : List Value) :
    Except EvalError Value :=
  let test (v : Value) : Except EvalError Bool := do f.truth (← run v)
  match f with
  | .map => do return .array (← elements.mapM run)
  | .filter => do return .array (← keep test elements)
  | .count => do return .number (Float.ofNat (← countFrom test 0 elements))
  | .some => do return .bool (← elements.anyM test)
  | .all => do return .bool (← elements.allM test)
  | .none => do return .bool (← noneOf test elements)
  | _ => f.refuse .notClosure

end RuleGraph.Builtin

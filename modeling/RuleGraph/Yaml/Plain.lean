import RuleGraph.Json.Basic
import RuleGraph.Number.Reading
import RuleGraph.Yaml.Node
/-!
# Values of scalars

A plain scalar without a tag is a null, a switch, an integer or a decimal if it looks like one, and
else a text. Integers may be hexadecimal, octal or binary; digits after a leading zero are a text.
-/
namespace RuleGraph.Yaml

def isNull (s : String) : Bool :=
  ["null", "Null", "NULL", "~"].contains s

def switch? (s : String) : Option Bool :=
  if ["true", "True", "TRUE"].contains s then some true
  else if ["false", "False", "FALSE"].contains s then some false
  else none

def natIn (base : Nat) (digits : List Char) : Option Nat :=
  if digits.isEmpty then none
  else
    digits.foldlM (fun n c => do
      let d ← hexDigit c
      if d < base then some (n * base + d) else none) 0

def hasLeadingZero (cs : List Char) : Bool :=
  match (Number.takeSign cs).2 with
  | '0' :: c :: rest => (c :: rest).all Char.isDigit
  | _ => false

def magnitude (cs : List Char) : Option Nat :=
  match cs with
  | '0' :: 'x' :: digits => natIn 16 digits
  | '0' :: 'o' :: digits => natIn 8 digits
  | '0' :: 'b' :: digits => natIn 2 digits
  | digits => if hasLeadingZero digits then none else natIn 10 digits

def int? (s : String) : Option Int :=
  match s.toList with
  | '-' :: cs => (magnitude cs).map fun n => -(n : Int)
  | '+' :: cs => (magnitude cs).map fun n => (n : Int)
  | cs => (magnitude cs).map fun n => (n : Int)

def decimal? (s : String) : Option Float :=
  if [".inf", ".Inf", ".INF", "+.inf", "+.Inf", "+.INF"].contains s then some (1 / 0)
  else if ["-.inf", "-.Inf", "-.INF"].contains s then some (-1 / 0)
  else if [".nan", ".NaN", ".NAN"].contains s then some (0 / 0)
  else
    match Number.read s.toList with
    | some x => if x.isFinite then some x else none
    | none => none

/-- What becomes of an integer: beyond 64 bits it has no value, and beyond 128 it is a decimal. -/
inductive Width where
  | exact
  | excessive
  | decimal

def width (n : Int) : Width :=
  if -Int.ofNat (Nat.pow 2 63) ≤ n ∧ n < Int.ofNat (Nat.pow 2 64) then .exact
  else if -Int.ofNat (Nat.pow 2 127) ≤ n ∧ n < Int.ofNat (Nat.pow 2 128) then .excessive
  else .decimal

def decimalOrText (s : String) : Json :=
  match decimal? s with
  | some x => if hasLeadingZero s.toList then .string s else .decimal x
  | none => .string s

def plainValue (s : String) : Option Json :=
  if s.isEmpty || isNull s then some .null
  else
    match switch? s, int? s with
    | some b, _ => some (.bool b)
    | none, some n =>
      match width n with
      | .exact => some (.integer n)
      | .excessive => none
      | .decimal => some (decimalOrText s)
    | none, none => some (decimalOrText s)

def coreTag (name : String) : Tag :=
  utf8 ("tag:yaml.org,2002:" ++ name)

def isOwnTag (tag : Tag) : Bool :=
  bareTag.isPrefixOf tag

/-- Whether a tag is one of the document's own: its bytes are a text. -/
def isLocalTag (tag : Option Tag) : Bool :=
  match tag with
  | some tag => isOwnTag tag && (String.fromUTF8? ⟨tag.toArray⟩).isSome
  | none => false

/-- The value of a scalar under its tag. A tag of the document's own has no value, and one that is
no text is not looked at. -/
def scalarValue (tag : Option Tag) (style : Style) (s : String) : Option Json :=
  match tag with
  | none => if style = .plain then plainValue s else some (.string s)
  | some t =>
    if isLocalTag tag then none
    else if t == coreTag "bool" then (switch? s).map .bool
    else if t == coreTag "int" then do
      let n ← int? s
      match width n with
      | .exact => some (.integer n)
      | _ => none
    else if t == coreTag "float" then (decimal? s).map .decimal
    else if t == coreTag "null" then if isNull s then some .null else none
    else if isOwnTag t && style == .plain then plainValue s
    else some (.string s)

end RuleGraph.Yaml

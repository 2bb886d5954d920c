import RuleGraph.Json.Basic
import RuleGraph.Number.Notation
import RuleGraph.Text.Quoted
/-!
# Compact JSON text

The text of a tree has no blanks. Quotes, backslashes and controls in strings are escaped and every
other character stands for itself. A decimal always shows a point or an exponent, except that one
without a value is null. All JSON that leaves the engine is assumed to be written in this way.
-/
namespace RuleGraph.Json

/-- Decimals in JSON text: positional from `10⁻⁵` up to below `10¹⁶`. A tie goes to the even
digit. -/
def decimalNotation : Number.Notation :=
  ⟨.even, some (-5, 15), true, true, "null".toList, "null".toList⟩

def decimalChars (x : Float) : List Char :=
  if x.isFinite then decimalNotation.write x else "null".toList

def escapedChar (c : Char) : List Char :=
  match c with
  | '"' => ['\\', '"']
  | '\\' => ['\\', '\\']
  | '\x08' => ['\\', 'b']
  | '\t' => ['\\', 't']
  | '\n' => ['\\', 'n']
  | '\x0c' => ['\\', 'f']
  | '\r' => ['\\', 'r']
  | _ =>
    if c.toNat < 0x20 then
      ['\\', 'u', '0', '0', Nat.digitChar (c.toNat / 16), Nat.digitChar (c.toNat % 16)]
    else [c]

def stringChars (s : String) : List Char :=
  '"' :: (s.toList.flatMap escapedChar ++ ['"'])

mutual

def chars : Json → List Char
  | .null => "null".toList
  | .bool true => "true".toList
  | .bool false => "false".toList
  | .integer n => Number.intChars n
  | .decimal x => decimalChars x
  | .string s => stringChars s
  | .array items => '[' :: (itemChars items ++ [']'])
  | .object members => '\x7b' :: (memberChars members ++ ['\x7d'])
termination_by structural j => j

def itemChars : List Json → List Char
  | [] => []
  | [j] => j.chars
  | j :: rest => j.chars ++ ',' :: itemChars rest
termination_by structural items => items

def memberChars : List (String × Json) → List Char
  | [] => []
  | [(k, j)] => stringChars k ++ ':' :: j.chars
  | (k, j) :: rest => stringChars k ++ ':' :: (j.chars ++ ',' :: memberChars rest)
termination_by structural members => members

end

def text (j : Json) : String :=
  String.ofList j.chars

end RuleGraph.Json

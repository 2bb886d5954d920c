import RuleGraph.Number.Binary64
/-!
# Reading decimals

A decimal is an optional sign, digits with at most one point among or around them, and an optional
exponent. It is read as the number nearest to it.
-/
namespace RuleGraph.Number

def digitValue (c : Char) : Nat :=
  c.toNat - '0'.toNat

def appendDigits (n : Nat) (cs : List Char) : Nat :=
  cs.foldl (fun m c => 10 * m + digitValue c) n

def takeSign : List Char → Bool × List Char
  | '-' :: cs => (true, cs)
  | '+' :: cs => (false, cs)
  | cs => (false, cs)

def readExponent : List Char → Option Int
  | [] => some 0
  | c :: cs =>
    if c = 'e' ∨ c = 'E' then
      let (negative, ds) := takeSign cs
      if ds ≠ [] ∧ ds.all Char.isDigit then
        let n := appendDigits 0 ds
        some (if negative then -(n : Int) else n)
      else none
    else none

/-- The number nearest to `m · 10 ^ e`. Decimals above `10 ^ 310` are infinite and those below
`10 ^ (-330)` zero; their powers are never computed. -/
def ofDecimal (m : Nat) (e : Int) : Float :=
  let size := (m.log2 : Int) * 30103 / 100000 + e
  if m = 0 ∨ size < -330 then 0
  else if 310 < size then 1 / 0
  else Float.ofScientific m (decide (e < 0)) e.natAbs

def readMagnitude (cs : List Char) : Option Float :=
  let whole := cs.takeWhile Char.isDigit
  let rest := cs.dropWhile Char.isDigit
  let (fraction, tail) := match rest with
    | '.' :: ds => (ds.takeWhile Char.isDigit, ds.dropWhile Char.isDigit)
    | ds => ([], ds)
  if whole = [] ∧ fraction = [] then none
  else
    (readExponent tail).map fun e =>
      ofDecimal (appendDigits (appendDigits 0 whole) fraction) (e - fraction.length)

/-- Reads a decimal; nothing else is left in the text. The number is infinite if the decimal is
beyond the greatest number. -/
def read (cs : List Char) : Option Float :=
  let (negative, ds) := takeSign cs
  (readMagnitude ds).map (withSign negative)

end RuleGraph.Number

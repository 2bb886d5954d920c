import RuleGraph.Number.Shortest
/-!
# Written forms of a number

A written form has the fewest digits that identify the number. A `Notation` says which numbers are
written positionally and how the others are written.
-/
namespace RuleGraph.Number

/-- The decisions of a written form. -/
structure Notation where
  tie : Tie
  /-- The powers of ten of the leading digit from which and up to which a number is written
  positionally; every one if there is no range. -/
  positional : Option (Int × Int)
  /-- Whether an integer written positionally gets the fraction `.0`. -/
  fraction : Bool
  plus : Bool
  infinity : List Char
  undefined : List Char

def digitChars (n : Nat) : List Char :=
  Nat.toDigits 10 n

def intChars (n : Int) : List Char :=
  if n < 0 then '-' :: digitChars n.natAbs else digitChars n.natAbs

def Decimal.leading (d : Decimal) : Int :=
  (digitChars d.digits).length + d.exponent - 1

def Decimal.positionalChars (fraction : Bool) (d : Decimal) : List Char :=
  let ds := digitChars d.digits
  if 0 ≤ d.exponent then
    ds ++ List.replicate d.exponent.toNat '0' ++ (if fraction then ['.', '0'] else [])
  else
    let before := ds.length - (-d.exponent).toNat
    if 0 < before then ds.take before ++ '.' :: ds.drop before
    else '0' :: '.' :: (List.replicate ((-d.exponent).toNat - ds.length) '0' ++ ds)

def Decimal.exponentChars (plus : Bool) (d : Decimal) : List Char :=
  let mantissa := match digitChars d.digits with
    | [] => []
    | [c] => [c]
    | c :: cs => c :: '.' :: cs
  mantissa ++ 'e' :: ((if plus && 0 < d.leading then ['+'] else []) ++ intChars d.leading)

def Notation.magnitude (n : Notation) (d : Decimal) : List Char :=
  match n.positional with
  | none => d.positionalChars n.fraction
  | some (low, high) =>
    if d.digits = 0 ∨ (low ≤ d.leading ∧ d.leading ≤ high) then d.positionalChars n.fraction
    else d.exponentChars n.plus

def Notation.write (n : Notation) (x : Float) : List Char :=
  if x.isNaN then n.undefined
  else
    let magnitude := if x.isInf then n.infinity else n.magnitude (shortest n.tie x)
    if signBit x then '-' :: magnitude else magnitude

/-- Positional at any size and without an empty fraction; a tie goes up. -/
def plain : Notation :=
  ⟨.up, none, false, false, "inf".toList, "NaN".toList⟩

/-- With a fraction or an exponent, so that it is never read as an integer; a tie goes up. -/
def explicit : Notation :=
  ⟨.up, some (-4, 15), true, false, "inf".toList, "NaN".toList⟩

/-- Below this magnitude every integer is a number of its own. -/
def safeBound : Nat := Nat.pow 2 53

def isIntegral (x : Float) : Bool :=
  isInteger x && decide ((toInt x).natAbs < safeBound)

def text (x : Float) : List Char :=
  if isIntegral x then intChars (toInt x) else plain.write x

end RuleGraph.Number

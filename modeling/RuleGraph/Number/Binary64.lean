/-!
# Exact operations on floating-point numbers

A finite number is a sign, a natural mantissa and a power of two. Truncation, rounding to an
integer and the remainder are computed on that form in integer arithmetic, so that each result is
the exact one.
-/
namespace RuleGraph.Number

/-- A finite number `±mantissa · 2 ^ exponent`. -/
structure Parts where
  negative : Bool
  mantissa : Nat
  exponent : Int
  deriving DecidableEq, Repr

def signBit (x : Float) : Bool :=
  decide (Nat.pow 2 63 ≤ x.toBits.toNat)

def exponentField (x : Float) : Nat :=
  x.toBits.toNat / Nat.pow 2 52 % Nat.pow 2 11

def fractionField (x : Float) : Nat :=
  x.toBits.toNat % Nat.pow 2 52

/-- Sign, mantissa and exponent of a finite number; the value of another is unspecified. -/
def parts (x : Float) : Parts :=
  if exponentField x = 0 then ⟨signBit x, fractionField x, -1074⟩
  else ⟨signBit x, fractionField x + Nat.pow 2 52, (exponentField x : Int) - 1075⟩

def Parts.whole (p : Parts) : Nat :=
  if 0 ≤ p.exponent then p.mantissa * Nat.pow 2 p.exponent.toNat
  else p.mantissa / Nat.pow 2 (-p.exponent).toNat

def Parts.isWhole (p : Parts) : Bool :=
  decide (0 ≤ p.exponent) || p.mantissa % Nat.pow 2 (-p.exponent).toNat == 0

/-- The number `m · 2 ^ q`, for an `m · 2 ^ q` that a number represents. -/
def scaled (m : Nat) (q : Int) : Float :=
  if m = 0 then 0
  else
    let top := max ((m.log2 : Int) + q - 52) (-1074)
    let n := if top ≤ q then m * Nat.pow 2 (q - top).toNat else m / Nat.pow 2 (top - q).toNat
    if n < Nat.pow 2 52 then Float.ofBits (UInt64.ofNat n)
    else Float.ofBits (UInt64.ofNat ((top + 1075).toNat * Nat.pow 2 52 + (n - Nat.pow 2 52)))

def withSign (negative : Bool) (x : Float) : Float :=
  if negative then -x else x

/-- Rounds a finite number to an integer: the magnitude of one that has a fraction becomes the
value of `f` at its sign, at the integer below the magnitude and at how the fraction compares with
one half. Numbers that are not finite stay as they are. -/
def roundBy (f : Bool → Nat → Ordering → Nat) (x : Float) : Float :=
  let p := parts x
  if !x.isFinite || p.isWhole then x
  else
    let unit := Nat.pow 2 (-p.exponent).toNat
    withSign p.negative (scaled (f p.negative p.whole (compare (2 * (p.mantissa % unit)) unit)) 0)

def floor : Float → Float :=
  roundBy fun negative n _ => if negative then n + 1 else n

def ceil : Float → Float :=
  roundBy fun negative n _ => if negative then n else n + 1

def round : Float → Float :=
  roundBy fun _ n half => if half = .lt then n else n + 1

def toInt (x : Float) : Int :=
  let p := parts x
  if p.negative then -(p.whole : Int) else p.whole

/-- The integer part of a number, kept between `-bound` and `bound`; zero if it is undefined. -/
def toIntWithin (bound : Nat) (x : Float) : Int :=
  if x.isNaN then 0
  else if Float.ofNat bound ≤ x then bound
  else if x ≤ -Float.ofNat bound then -bound
  else toInt x

def isInteger (x : Float) : Bool :=
  x.isFinite && (parts x).isWhole

/-- The remainder of the division of `x` by `y` that cuts the quotient to an integer: it has the
sign of `x` and is exact. -/
def remainder (x y : Float) : Float :=
  if x.isNaN || y.isNaN || x.isInf || y == 0 then 0 / 0
  else if y.isInf then x
  else
    let p := parts x
    let d := parts y
    let q := min p.exponent d.exponent
    let n := p.mantissa * Nat.pow 2 (p.exponent - q).toNat
    let m := d.mantissa * Nat.pow 2 (d.exponent - q).toNat
    withSign p.negative (scaled (n % m) q)

/-- Multiplies `acc` by `base ^ n`, squaring `base` for each binary digit of `n`, of which `k`
are left. -/
def mulPower : (k : Nat) → (acc base : Float) → (n : Nat) → Float
  | 0, acc, _, _ => acc
  | k + 1, acc, base, n => mulPower k (if n % 2 = 1 then acc * base else acc) (base * base) (n / 2)

def powerOfTen (n : Int) : Float :=
  let p := mulPower (n.natAbs.log2 + 1) 1 10 n.natAbs
  if n < 0 then 1 / p else p

/-- The lesser of two numbers; a number that is undefined gives way to the other. -/
def least (x y : Float) : Float :=
  if x.isNaN then y else if y.isNaN then x else if y < x then y else x

def greatest (x y : Float) : Float :=
  if x.isNaN then y else if y.isNaN then x else if x < y then y else x

end RuleGraph.Number

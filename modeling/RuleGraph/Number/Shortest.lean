import RuleGraph.Number.Binary64
/-!
# The fewest digits that identify a number

Every finite number stands for an interval of reals, those that round to it. The digits selected
here are those of a decimal in that interval with as few digits as possible and, among these, the
nearest to the number. Where two are equally near, the caller says which of them counts.
-/
namespace RuleGraph.Number

/-- A decimal `0.d₁d₂… · 10 ^ point` with its digits as one natural number. -/
structure Decimal where
  digits : Nat
  exponent : Int
  deriving DecidableEq, Repr

/-- The interval of a positive number in quarters of its unit: a decimal is compared with its
ends after both are scaled to integers. -/
structure Interval where
  value : Nat
  low : Nat
  high : Nat
  scale : Nat
  closed : Bool

/-- Which of two neighbours stands for a number halfway between them. -/
inductive Tie where
  | even
  | up
  deriving DecidableEq, Repr

def Tie.choose (tie : Tie) (d : Nat) : Nat :=
  match tie with
  | even => d + d % 2
  | up => d + 1

/-- The reals that round to `m · 2 ^ q`. The gap below a power of two is half as wide, the least
exponent apart. -/
def Interval.ofParts (m : Nat) (q : Int) : Interval :=
  let narrow := m = Nat.pow 2 52 ∧ -1074 < q
  let up := Nat.pow 2 q.toNat
  let down := Nat.pow 2 (-q).toNat
  ⟨4 * m * up, (4 * m - if narrow then 1 else 2) * up, (4 * m + 2) * up, 4 * down, m % 2 = 0⟩

def Interval.holds (i : Interval) (d : Nat) (e : Int) : Bool :=
  let x := d * Nat.pow 10 e.toNat * i.scale
  let unit := Nat.pow 10 (-e).toNat
  if i.closed then i.low * unit ≤ x && x ≤ i.high * unit else i.low * unit < x && x < i.high * unit

def Interval.below (i : Interval) (e : Int) : Nat :=
  i.value * Nat.pow 10 (-e).toNat / (i.scale * Nat.pow 10 e.toNat)

/-- Of the two multiples of `10 ^ e` next to the number the one in the interval, the nearer if
both are. -/
def Interval.onGrid (i : Interval) (tie : Tie) (e : Int) : Option Nat :=
  let d := i.below e
  match i.holds d e, i.holds (d + 1) e with
  | true, false => some d
  | false, true => some (d + 1)
  | false, false => none
  | true, true =>
    match compare (2 * i.value * Nat.pow 10 (-e).toNat)
        ((2 * d + 1) * Nat.pow 10 e.toNat * i.scale) with
    | .lt => some d
    | .gt => some (d + 1)
    | .eq => some (tie.choose d)

/-- The power of ten above a positive number, found from its binary logarithm and corrected
upward by at most `k` steps. -/
def Interval.magnitude (i : Interval) : (k : Nat) → (e : Int) → Int
  | 0, e => e
  | k + 1, e =>
    if i.value * Nat.pow 10 (-e).toNat < i.scale * Nat.pow 10 e.toNat then e
    else i.magnitude k (e + 1)

/-- Searches the grids of `n` more digits each, the coarsest first. -/
def Interval.search (i : Interval) (tie : Tie) : (n : Nat) → (e : Int) → Option Decimal
  | 0, _ => none
  | n + 1, e =>
    match i.onGrid tie e with
    | some d => some ⟨d, e⟩
    | none => i.search tie n (e - 1)

def Decimal.trim : (k : Nat) → Decimal → Decimal
  | 0, d => d
  | k + 1, d =>
    if d.digits ≠ 0 ∧ d.digits % 10 = 0 then trim k ⟨d.digits / 10, d.exponent + 1⟩ else d

def Decimal.exact (m : Nat) (q : Int) : Decimal :=
  if 0 ≤ q then ⟨m * Nat.pow 2 q.toNat, 0⟩ else ⟨m * Nat.pow 5 (-q).toNat, q⟩

def shortest (tie : Tie) (x : Float) : Decimal :=
  let p := parts x
  if p.mantissa = 0 then ⟨0, 0⟩
  else
    let i := Interval.ofParts p.mantissa p.exponent
    let log := ((p.mantissa.log2 : Int) + p.exponent) * 30103 / 100000
    let top := i.magnitude 4 (log - 1)
    ((i.search tie 17 (top - 1)).getD (.exact p.mantissa p.exponent)).trim 400

end RuleGraph.Number

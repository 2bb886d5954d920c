import RuleGraph.Json.Written
import RuleGraph.Json.Basic
import RuleGraph.Number.Reading
/-!
# Reading JSON

The values of written strings and numbers, and the tree of a text. Only integers are exact: the
digits of a decimal count as far as they fit 64 bits, and are scaled by a power of ten once they are
a number. All JSON that comes to the engine is assumed to be read in this way.
-/
namespace RuleGraph.Json

/-- Arrays and objects nest less deeply than this. -/
def depthLimit : Nat := 128

def hexValue (b : UInt8) : Nat :=
  let n := b.toNat
  if n < 0x3A then n - 0x30 else if n < 0x47 then n - 0x37 else n - 0x57

def codeUnit (w x y z : UInt8) : Nat :=
  ((hexValue w * 16 + hexValue x) * 16 + hexValue y) * 16 + hexValue z

def charBytes (code : Nat) : Bytes :=
  ascii (String.singleton (Char.ofNat code))

def escapedByte (b : UInt8) : UInt8 :=
  if isByte 'b' b then 0x08
  else if isByte 'f' b then 0x0C
  else if isByte 'n' b then 0x0A
  else if isByte 'r' b then 0x0D
  else if isByte 't' b then 0x09
  else b

/-- Replaces the escapes. An escaped code unit is a character, or the first half of one of which
the second half follows. -/
def unescape : Bytes → Option Bytes
  | [] => some []
  | 0x5C :: 0x75 :: w :: x :: y :: z :: rest =>
    let high := codeUnit w x y z
    if high < 0xD800 ∨ 0xDFFF < high then (unescape rest).map (charBytes high ++ ·)
    else
      match rest with
      | 0x5C :: 0x75 :: w :: x :: y :: z :: rest =>
        let low := codeUnit w x y z
        if high < 0xDC00 ∧ 0xDC00 ≤ low ∧ low ≤ 0xDFFF then
          let code := 0x10000 + (high - 0xD800) * 0x400 + (low - 0xDC00)
          (unescape rest).map (charBytes code ++ ·)
        else none
      | _ => none
  | 0x5C :: b :: rest => (unescape rest).map (escapedByte b :: ·)
  | b :: rest => (unescape rest).map (b :: ·)

def stringOf (written : Bytes) : Option String := do
  let bytes ← unescape written
  String.fromUTF8? ⟨bytes.toArray⟩

def digitOf (b : UInt8) : Nat :=
  b.toNat - 0x30

def natOf (digits : Bytes) : Nat :=
  digits.foldl (fun n b => 10 * n + digitOf b) 0

/-- Appends digits to a number of 64 bits until the first that does not fit; the number and how
many digits there are left. -/
def appendFitting : Nat → Bytes → Nat × Nat
  | n, [] => (n, 0)
  | n, b :: rest =>
    if 10 * n + digitOf b < Nat.pow 2 64 then appendFitting (10 * n + digitOf b) rest
    else (n, rest.length + 1)

/-- Divides by a power of ten that may itself be beyond the greatest number. After `k` divisions
by a greatest power nothing is left. -/
def divideDown : (k : Nat) → Float → (e : Nat) → Float
  | 0, x, _ => x
  | k + 1, x, e =>
    if x == 0 then x
    else if e ≤ 308 then x / Number.ofDecimal 1 e
    else divideDown k (x / Number.ofDecimal 1 308) (e - 308)

def scaleDecimal (m : Nat) (e : Int) : Option Float :=
  let x := Float.ofNat m
  if e < 0 then some (divideDown 4 x e.natAbs)
  else if x == 0 then some x
  else if 308 < e then none
  else
    let y := x * Number.ofDecimal 1 e
    if y.isInf then none else some y

def WrittenNumber.toJson (w : WrittenNumber) : Option Json :=
  let (m, dropped) := appendFitting 0 w.whole
  let inRange := if w.negative then m != 0 && decide (m ≤ Nat.pow 2 63) else true
  let exact := !w.decimal && dropped == 0 && inRange
  if exact then some (.integer (if w.negative then -(m : Int) else m))
  else
    let (m, unused) := appendFitting m w.fraction
    let shift := (dropped : Int) - (w.fraction.length - unused : Nat)
    let exponent := if w.exponentNegative then -(natOf w.exponent : Int) else natOf w.exponent
    (scaleDecimal m (shift + exponent)).map fun x => .decimal (Number.withSign w.negative x)

def numberOf (written : Bytes) : Option Json :=
  (splitNumber written).bind WrittenNumber.toJson

mutual

/-- The tree of a written one; `depth` bounds how deeply arrays and objects nest in it. -/
def Written.toJson (depth : Nat) : Written → Option Json
  | .null => some .null
  | .bool b => some (.bool b)
  | .number written => numberOf written
  | .string written => (stringOf written).map .string
  | .array items =>
    if depth ≤ 1 then none else (Written.itemsToJson (depth - 1) items).map .array
  | .object members =>
    if depth ≤ 1 then none
    else (Written.membersToJson (depth - 1) members).map fun pairs => .object (Members.ofList pairs)
termination_by structural w => w

def Written.itemsToJson (depth : Nat) : List Written → Option (List Json)
  | [] => some []
  | w :: rest => do
    let j ← w.toJson depth
    let items ← Written.itemsToJson depth rest
    some (j :: items)
termination_by structural items => items

def Written.membersToJson (depth : Nat) : List (Bytes × Written) → Option (List (String × Json))
  | [] => some []
  | (name, w) :: rest => do
    let key ← stringOf name
    let j ← w.toJson depth
    let members ← Written.membersToJson depth rest
    some ((key, j) :: members)
termination_by structural members => members

end

/-- Reads a text; of equal keys the last counts. -/
def read (bytes : Bytes) : Option Json :=
  (Written.read bytes).bind (Written.toJson depthLimit)

end RuleGraph.Json

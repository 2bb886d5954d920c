/-!
# JSON tokens

Bytes are split into punctuation, literals, numbers and strings. Numbers and strings keep the bytes
they were written with: only their shape is checked here.
-/
namespace RuleGraph.Json

abbrev Bytes := List UInt8

inductive Token where
  | openArray | closeArray | openObject | closeObject | comma | colon
  | null
  | bool (b : Bool)
  | number (written : Bytes)
  | string (written : Bytes)
  deriving Repr

def ascii (s : String) : Bytes :=
  s.toUTF8.toList

def isByte (c : Char) (b : UInt8) : Bool :=
  b.toNat == c.toNat

def isDigitByte (b : UInt8) : Bool :=
  decide (0x30 ≤ b.toNat) && decide (b.toNat ≤ 0x39)

def isHexByte (b : UInt8) : Bool :=
  isDigitByte b || (decide (0x41 ≤ b.toNat) && decide (b.toNat ≤ 0x46))
    || (decide (0x61 ≤ b.toNat) && decide (b.toNat ≤ 0x66))

def isBlankByte (b : UInt8) : Bool :=
  b == 0x20 || b == 0x09 || b == 0x0A || b == 0x0D

def isNumberByte (b : UInt8) : Bool :=
  isDigitByte b || isByte '-' b || isByte '+' b || isByte '.' b || isByte 'e' b || isByte 'E' b

/-- The bytes of a string up to its closing quote, which is dropped. An escape is a backslash and
one of nine letters, `u` with four digits in base sixteen after it; a control cannot stand alone. -/
def splitString (written : Bytes) : Bytes → Option (Bytes × Bytes)
  | [] => none
  | 0x22 :: rest => some (written.reverse, rest)
  | 0x5C :: b :: rest =>
    if isByte 'u' b then
      match rest with
      | w :: x :: y :: z :: rest =>
        if isHexByte w && isHexByte x && isHexByte y && isHexByte z then
          splitString (z :: y :: x :: w :: b :: 0x5C :: written) rest
        else none
      | _ => none
    else if (ascii "\"\\/bfnrt").contains b then splitString (b :: 0x5C :: written) rest
    else none
  | b :: rest => if b < 0x20 ∨ b = 0x5C then none else splitString (b :: written) rest

theorem length_lt_of_splitString {written bytes body rest : Bytes}
    (h : splitString written bytes = some (body, rest)) : rest.length < bytes.length := by
  fun_induction splitString written bytes <;> simp_all <;> omega

def splitDigits (bytes : Bytes) : Option (Bytes × Bytes) :=
  let digits := bytes.takeWhile isDigitByte
  if digits.isEmpty then none else some (digits, bytes.dropWhile isDigitByte)

structure WrittenNumber where
  negative : Bool
  whole : Bytes
  fraction : Bytes
  decimal : Bool
  exponentNegative : Bool
  exponent : Bytes
  deriving Repr

def splitSign : Bytes → Bool × Bytes
  | 0x2D :: rest => (true, rest)
  | bytes => (false, bytes)

/-- A number is an integer without leading zeros, perhaps a fraction and perhaps an exponent. -/
def splitNumber (bytes : Bytes) : Option WrittenNumber := do
  let (negative, bytes) := splitSign bytes
  let (whole, rest) ← splitDigits bytes
  if whole.length > 1 && whole.head? == some 0x30 then none
  let (fraction, rest) ← match rest with
    | 0x2E :: rest => splitDigits rest
    | _ => some ([], rest)
  match rest with
  | [] => some ⟨negative, whole, fraction, !fraction.isEmpty, false, []⟩
  | b :: rest =>
    if isByte 'e' b || isByte 'E' b then
      let (exponentNegative, rest) := match rest with
        | 0x2D :: rest => (true, rest)
        | 0x2B :: rest => (false, rest)
        | _ => (false, rest)
      let (exponent, rest) ← splitDigits rest
      if rest.isEmpty then some ⟨negative, whole, fraction, true, exponentNegative, exponent⟩
      else none
    else none

def dropWord (word : Bytes) (bytes : Bytes) : Option Bytes :=
  if word.isPrefixOf bytes then some (bytes.drop word.length) else none

def punctuation (b : UInt8) : Option Token :=
  if isByte '[' b then some .openArray
  else if isByte ']' b then some .closeArray
  else if isByte '\x7b' b then some .openObject
  else if isByte '\x7d' b then some .closeObject
  else if isByte ',' b then some .comma
  else if isByte ':' b then some .colon
  else none

def nextToken (b : UInt8) (rest : Bytes) : Option (Token × Bytes) :=
  match punctuation b with
  | some token => some (token, rest)
  | none =>
    if b == 0x22 then (splitString [] rest).map fun (body, rest) => (.string body, rest)
    else if isByte 'n' b then (dropWord (ascii "ull") rest).map (.null, ·)
    else if isByte 't' b then (dropWord (ascii "rue") rest).map (.bool true, ·)
    else if isByte 'f' b then (dropWord (ascii "alse") rest).map (.bool false, ·)
    else
      let written := b :: rest.takeWhile isNumberByte
      (splitNumber written).map fun _ => (.number written, rest.dropWhile isNumberByte)

theorem length_dropWhile_le {α : Type} (p : α → Bool) (l : List α) :
    (l.dropWhile p).length ≤ l.length :=
  (List.dropWhile_sublist p).length_le

theorem length_le_of_dropWord {word bytes rest : Bytes} (h : dropWord word bytes = some rest) :
    rest.length ≤ bytes.length := by
  grind [dropWord]

theorem length_le_of_nextToken {b : UInt8} {bytes rest : Bytes} {token : Token}
    (h : nextToken b bytes = some (token, rest)) : rest.length ≤ bytes.length := by
  have hs (body rest : Bytes) (h : splitString [] bytes = some (body, rest)) :=
    Nat.le_of_lt (length_lt_of_splitString h)
  have hw (word rest : Bytes) (h : dropWord word bytes = some rest) := length_le_of_dropWord h
  have hn := length_dropWhile_le isNumberByte bytes
  simp only [nextToken] at h
  repeat' split at h
  all_goals simp only [Option.map_eq_some_iff, Option.some.injEq, Prod.mk.injEq, Prod.exists] at h
  all_goals grind

def tokens (bytes : Bytes) : Option (List Token) :=
  match bytes with
  | [] => some []
  | b :: rest =>
    if isBlankByte b then tokens rest
    else
      match _h : nextToken b rest with
      | none => none
      | some (token, rest) => (tokens rest).map (token :: ·)
termination_by bytes.length
decreasing_by
  · simp
  · have := length_le_of_nextToken _h
    simp; omega

end RuleGraph.Json

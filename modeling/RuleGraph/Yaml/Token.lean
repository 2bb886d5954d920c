import RuleGraph.Yaml.Scalar
/-!
# Tokens

The words, indicators and marks of a text. The ends of blocks have no indicator of their own: they
follow from the indentation.
-/
namespace RuleGraph.Yaml

inductive Style where
  | plain
  | literal
  | other
  deriving DecidableEq, Repr

inductive Token where
  | streamEnd
  | documentStart
  | documentEnd
  | version (major minor : Nat)
  | handle (name : String) (stands : List UInt8)
  | blockSequenceStart
  | blockMappingStart
  | blockEnd
  | flowSequenceStart
  | flowSequenceEnd
  | flowMappingStart
  | flowMappingEnd
  | flowEntry
  | blockEntry
  | key
  | value
  | alias (name : String)
  | anchor (name : String)
  /-- A tag is a text of bytes, since escapes in it need not form characters. -/
  | tag (handle : String) (suffix : List UInt8)
  | scalar (style : Style) (text : String)
  deriving DecidableEq, Repr

def textOf (spots : Spots) : String :=
  String.ofList (spots.map (·.char))

def anchorName (spots : Spots) : Option (String × Spots) :=
  let name := spots.takeWhile (isNameChar ·.char)
  let rest := spots.dropWhile (isNameChar ·.char)
  let next := charAt rest 0
  if name.isEmpty then none
  else if isGap next || ['?', ':', ',', ']', '\x7d', '%', '@', '\x60'].contains next then
    some (textOf name, rest)
  else none

def tagHandle (spots : Spots) : Option (String × Spots) :=
  if charAt spots 0 == '!' then
    let name := (spots.drop 1).takeWhile (isNameChar ·.char)
    let rest := (spots.drop 1).dropWhile (isNameChar ·.char)
    if charAt rest 0 == '!' then some ("!" ++ textOf name ++ "!", rest.drop 1)
    else some ("!" ++ textOf name, rest)
  else none

def isUriChar (flowToo : Bool) (c : Char) : Bool :=
  isNameChar c || ";/?:@&=+$.!~*'()".toList.contains c || (flowToo && ",[]".toList.contains c)

def followers (b : Nat) : Option Nat :=
  if b < 0x80 then some 0
  else if b < 0xC0 then none
  else if b < 0xE0 then some 1
  else if b < 0xF0 then some 2
  else if b < 0xF8 then some 3
  else none

/-- The byte that an escape stands for, where `awaited` bytes of a character are to come, and how
many are to come after it. -/
def escapedByte (awaited : Nat) (x y : Char) : Option (UInt8 × Nat) := do
  let b := (← hexDigit x) * 16 + (← hexDigit y)
  match awaited with
  | 0 => some (.ofNat b, ← followers b)
  | k + 1 => if 0x80 ≤ b ∧ b < 0xC0 then some (.ofNat b, k) else none

/-- The bytes of a tag after its handle; `%` escapes a byte. The bytes of one character are escaped
all or none. -/
def uriBytes (flowToo : Bool) (awaited : Nat) (written : List UInt8) :
    Spots → Option (List UInt8 × Spots)
  | [] => some (written.reverse, [])
  | spot :: rest =>
    if spot.char == '%' then
      match rest with
      | x :: y :: rest =>
        match escapedByte awaited x.char y.char with
        | some (b, awaited) => uriBytes flowToo awaited (b :: written) rest
        | none => none
      | _ => none
    else if 0 < awaited then none
    else if isUriChar flowToo spot.char then
      uriBytes flowToo 0 (UInt8.ofNat spot.char.toNat :: written) rest
    else some (written.reverse, spot :: rest)

def uri (flowToo : Bool) (spots : Spots) : Option (List UInt8 × Spots) :=
  uriBytes flowToo 0 [] spots

def nonempty (found : List UInt8 × Spots) : Option (List UInt8 × Spots) :=
  if found.1.isEmpty then none else some found

/-- A tag, and what a handle stands for, ends in front of a null byte. -/
def untilNull (bytes : List UInt8) : List UInt8 :=
  bytes.takeWhile (· != 0)

def utf8 (s : String) : List UInt8 :=
  s.toUTF8.toList

def tagParts (spots : Spots) : Option ((String × List UInt8) × Spots) := do
  if charAt spots 1 == '<' then
    let (text, rest) ← (uri true (spots.drop 2)).bind nonempty
    if charAt rest 0 == '>' then some (("", untilNull text), rest.drop 1) else none
  else
    let (handle, rest) ← tagHandle spots
    if handle.length ≥ 2 && handle.endsWith "!" then
      let (suffix, rest) ← (uri false rest).bind nonempty
      some ((handle, untilNull suffix), rest)
    else
      let (more, rest) ← uri false rest
      let suffix := untilNull (utf8 (handle.drop 1).toString ++ more)
      some (if suffix.isEmpty then ("", utf8 "!") else ("!", suffix), rest)

def tag (flow : Bool) (spots : Spots) : Option (Token × Spots) := do
  let ((handle, suffix), rest) ← tagParts spots
  let next := charAt rest 0
  if isGap next || (flow && next == ',') then some (.tag handle suffix, rest) else none

def skipBlanks (spots : Spots) : Spots :=
  spots.dropWhile (isBlank ·.char)

def versionNumber (spots : Spots) : Option (Nat × Spots) :=
  let digits := spots.takeWhile (·.char.isDigit)
  if digits.isEmpty || digits.length > 9 then none
  else
    some (digits.foldl (fun n spot => 10 * n + (spot.char.toNat - 0x30)) 0,
      spots.dropWhile (·.char.isDigit))

def versionDirective (spots : Spots) : Option (Token × Spots) := do
  let (major, rest) ← versionNumber (skipBlanks spots)
  if charAt rest 0 == '.' then
    let (minor, rest) ← versionNumber (rest.drop 1)
    some (.version major minor, rest)
  else none

def handleDirective (spots : Spots) : Option (Token × Spots) := do
  let (name, rest) ← tagHandle (skipBlanks spots)
  if name.endsWith "!" && isBlank (charAt rest 0) then
    let (stands, rest) ← (uri true (skipBlanks rest)).bind nonempty
    if isGap (charAt rest 0) then some (.handle name (untilNull stands), rest) else none
  else none

def directive (spots : Spots) : Option (Token × Spots) := do
  let name := textOf (spots.takeWhile (isNameChar ·.char))
  let rest := spots.dropWhile (isNameChar ·.char)
  if !isGap (charAt rest 0) then none
  let (token, rest) ←
    if name == "YAML" then versionDirective rest
    else if name == "TAG" then handleDirective rest
    else none
  some (token, ← toLineEnd rest)

end RuleGraph.Yaml

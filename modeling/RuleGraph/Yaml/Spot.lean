/-!
# Characters and their positions

A text is a list of spots: characters with their line and column. It ends with a spot of its own
that holds the null character, which is not allowed inside a text. The line breaks of one or two
characters are already read as line feeds. A byte order mark is a character like any other and has a
column.
-/
namespace RuleGraph.Yaml

structure Spot where
  char : Char
  line : Nat
  column : Nat
  /-- The number of bytes in front on the same line. -/
  offset : Nat
  deriving Inhabited

abbrev Spots := List Spot

def endMark : Char := '\x00'

def isBreak (c : Char) : Bool :=
  c == '\n' || c.toNat == 0x2028 || c.toNat == 0x2029

def isBlank (c : Char) : Bool :=
  c == ' ' || c == '\t'

def isGap (c : Char) : Bool :=
  isBlank c || isBreak c || c == endMark

def isNameChar (c : Char) : Bool :=
  c.isAlphanum || c == '_' || c == '-'

def isMark (c : Char) : Bool :=
  c.toNat == 0xFEFF

def charAt (spots : Spots) (n : Nat) : Char :=
  match spots.drop n with
  | [] => endMark
  | spot :: _ => spot.char

def startsWith (spots : Spots) (word : String) : Bool :=
  word.toList.isPrefixOf (spots.map (·.char) |>.take word.length)

def atDocumentMark (spots : Spots) : Bool :=
  match spots with
  | [] => false
  | spot :: _ =>
    spot.column == 0 && isGap (charAt spots 3) && (startsWith spots "---" || startsWith spots "...")

def column (spots : Spots) : Nat :=
  match spots with
  | [] => 0
  | spot :: _ => spot.column

def line (spots : Spots) : Nat :=
  match spots with
  | [] => 0
  | spot :: _ => spot.line

def offset (spots : Spots) : Nat :=
  match spots with
  | [] => 0
  | spot :: _ => spot.offset

def isAllowed (c : Char) : Bool :=
  let n := c.toNat
  n == 0x09 || n == 0x0A || n == 0x0D || (decide (0x20 ≤ n) && decide (n ≤ 0x7E)) || n == 0x85
    || (decide (0xA0 ≤ n) && decide (n ≤ 0xFFFD)) || decide (0x10000 ≤ n)

/-- Writes every break of one or two controls as a line feed. -/
def unifyBreaks : List Char → List Char
  | [] => []
  | '\r' :: '\n' :: rest => '\n' :: unifyBreaks rest
  | '\r' :: rest => '\n' :: unifyBreaks rest
  | c :: rest => (if c.toNat = 0x85 then '\n' else c) :: unifyBreaks rest

def place (line column offset : Nat) : List Char → Spots
  | [] => [⟨endMark, line, column, offset⟩]
  | c :: rest =>
    ⟨c, line, column, offset⟩ ::
      if isBreak c then place (line + 1) 0 0 rest
      else place line (column + 1) (offset + c.utf8Size) rest

def spots (bytes : List UInt8) : Option Spots := do
  let text ← String.fromUTF8? ⟨bytes.toArray⟩
  let chars := text.toList
  if chars.all isAllowed then some (place 0 0 0 (unifyBreaks chars)) else none

end RuleGraph.Yaml

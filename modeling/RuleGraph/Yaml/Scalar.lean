import RuleGraph.Yaml.Spot
/-!
# Scalars

The text of plain, quoted and block scalars. Each is read one character at a time; a single break
between two lines becomes a space, and of several the first is dropped.
-/
namespace RuleGraph.Yaml

/-- The blanks and breaks since the last word, in reverse. -/
structure Gap where
  blanks : List Char
  crossed : Bool
  first : Option Char
  others : List Char

def Gap.none : Gap :=
  ⟨[], false, Option.none, []⟩

def Gap.joined : Gap :=
  ⟨[], true, Option.none, []⟩

def Gap.addBlank (gap : Gap) (c : Char) : Gap :=
  if gap.crossed then gap else ⟨c :: gap.blanks, false, Option.none, []⟩

def Gap.addBreak (gap : Gap) (c : Char) : Gap :=
  if gap.crossed then ⟨[], true, gap.first, c :: gap.others⟩ else ⟨[], true, some c, []⟩

/-- What stands for a line's end and the empty lines after it, in reverse. -/
def folded (first : Option Char) (others : List Char) : List Char :=
  match first with
  | some '\n' => if others.isEmpty then [' '] else others
  | some c => others ++ [c]
  | none => others

def Gap.text (gap : Gap) : List Char :=
  if gap.crossed then folded gap.first gap.others else gap.blanks

structure PlainEnd where
  text : String
  crossed : Bool
  rest : Spots

def isFlowIndicator (c : Char) : Bool :=
  c == ',' || c == '[' || c == ']' || c == '\x7b' || c == '\x7d'

/-- Reads a plain scalar after the words in `text`. Inside a flow collection brackets and commas end
it; outside, a line that is indented less than `indent`. -/
def plain (flow : Bool) (indent : Nat) (text : List Char) (inGap : Bool) (gap : Gap) :
    Spots → Option PlainEnd
  | [] => some ⟨String.ofList text.reverse, gap.crossed, []⟩
  | spot :: rest =>
    let c := spot.char
    let next := charAt rest 0
    let stop := some ⟨String.ofList text.reverse, gap.crossed, spot :: rest⟩
    if isBlank c then
      if gap.crossed && spot.column < indent && c == '\t' then none
      else plain flow indent text true (gap.addBlank c) rest
    else if isBreak c then plain flow indent text true (gap.addBreak c) rest
    else if inGap && c == '#' then stop
    else if inGap && ((!flow && spot.column < indent) || atDocumentMark (spot :: rest)) then stop
    else if c == endMark then stop
    else if flow && c == ':' && (isFlowIndicator next || next == '?') then none
    else if (c == ':' && isGap next) || (flow && isFlowIndicator c) then stop
    else plain flow indent (c :: (gap.text ++ text)) false .none rest

inductive QuotedState where
  | text
  /-- After a quote inside single quotes: a second one stands for itself. -/
  | quote
  | escape
  | code (left value : Nat)

def escaped (c : Char) : Option Char :=
  match c with
  | '0' => some '\x00'
  | 'a' => some '\x07'
  | 'b' => some '\x08'
  | 't' | '\t' => some '\t'
  | 'n' => some '\n'
  | 'v' => some '\x0b'
  | 'f' => some '\x0c'
  | 'r' => some '\r'
  | 'e' => some '\x1b'
  | ' ' | '"' | '/' | '\\' => some c
  | 'N' => some '\x85'
  | '_' => some '\xa0'
  | 'L' => some '\u2028'
  | 'P' => some '\u2029'
  | _ => none

def codeDigits (c : Char) : Option Nat :=
  match c with
  | 'x' => some 2
  | 'u' => some 4
  | 'U' => some 8
  | _ => none

def hexDigit (c : Char) : Option Nat :=
  if c.isDigit then some (c.toNat - 0x30)
  else if 'a' ≤ c ∧ c ≤ 'f' then some (c.toNat - 0x57)
  else if 'A' ≤ c ∧ c ≤ 'F' then some (c.toNat - 0x37)
  else none

def quoted (quote : Char) (text : List Char) (gap : Gap) :
    QuotedState → Spots → Option (String × Spots)
  | _, [] => none
  | .text, spot :: rest =>
    let c := spot.char
    if atDocumentMark (spot :: rest) || c == endMark then none
    else if isBlank c then quoted quote text (gap.addBlank c) .text rest
    else if isBreak c then quoted quote text (gap.addBreak c) .text rest
    else
      let text := gap.text ++ text
      if c == quote then
        if c == '\'' then quoted quote text .none .quote rest
        else some (String.ofList text.reverse, rest)
      else if quote == '"' && c == '\\' then quoted quote text .none .escape rest
      else quoted quote (c :: text) .none .text rest
  | .quote, spot :: rest =>
    if spot.char == quote then quoted quote (quote :: text) .none .text rest
    else some (String.ofList text.reverse, spot :: rest)
  | .escape, spot :: rest =>
    if isBreak spot.char then quoted quote text .joined .text rest
    else
      match codeDigits spot.char, escaped spot.char with
      | some n, _ => quoted quote text .none (.code (n - 1) 0) rest
      | none, some c => quoted quote (c :: text) .none .text rest
      | none, none => none
  | .code left value, spot :: rest =>
    match hexDigit spot.char with
    | none => none
    | some d =>
      let value := value * 16 + d
      match left with
      | left + 1 => quoted quote text .none (.code left value) rest
      | 0 =>
        if (0xD800 ≤ value ∧ value ≤ 0xDFFF) ∨ 0x10FFFF < value then none
        else quoted quote (Char.ofNat value :: text) .none .text rest

/-- What happens to the breaks after the last line: all but one are dropped, or all, or none. -/
inductive Chomping where
  | clip | strip | keep

structure BlockHeader where
  folds : Bool
  chomping : Chomping
  increment : Option Nat

structure Block where
  text : List Char
  first : Option Char
  others : List Char
  /-- Whether the last line begins with a blank; such lines are not folded. -/
  leadingBlank : Bool
  indent : Option Nat
  most : Nat
  inLine : Bool

def Block.finish (header : BlockHeader) (block : Block) : String :=
  let last := match header.chomping with
    | .strip => []
    | _ => block.first.toList
  let others := match header.chomping with
    | .keep => block.others
    | _ => []
  String.ofList (others ++ last ++ block.text).reverse

def Block.startLine (header : BlockHeader) (block : Block) (c : Char) : Block :=
  let between :=
    if header.folds && block.first == some '\n' && !block.leadingBlank && !isBlank c then
      folded block.first block.others
    else block.others ++ block.first.toList
  { block with
    text := c :: (between ++ block.text), first := none, others := [], leadingBlank := isBlank c,
    inLine := true }

/-- Reads the lines of a block scalar. If its indentation is not given, it is that of the first line
that is not empty, but at least `least` and one. -/
def blockLines (header : BlockHeader) (least : Nat) (block : Block) :
    Spots → Option (String × Spots)
  | [] => some (block.finish header, [])
  | spot :: rest =>
    let c := spot.char
    if block.inLine then
      if isBreak c then
        blockLines header least { block with first := some c, inLine := false, most := 0 } rest
      else if c == endMark then some (block.finish header, spot :: rest)
      else blockLines header least { block with text := c :: block.text } rest
    else
      let inside := match block.indent with
        | none => true
        | some n => decide (spot.column < n)
      if inside && c == ' ' then blockLines header least block rest
      else if inside && c == '\t' then none
      else
        let most := max block.most spot.column
        if isBreak c then
          blockLines header least { block with most := most, others := c :: block.others } rest
        else
          let indent := block.indent.getD (max most (max least 1))
          if spot.column == indent && c != endMark then
            blockLines header least ({ block with indent := some indent }.startLine header c) rest
          else some (block.finish header, spot :: rest)

def chomping? (c : Char) : Option Chomping :=
  if c == '+' then some .keep else if c == '-' then some .strip else none

def blockHeader (folds : Bool) (spots : Spots) : Option (BlockHeader × Spots) :=
  let digit (c : Char) := if c.isDigit then some (c.toNat - 0x30) else none
  let found := match chomping? (charAt spots 0), digit (charAt spots 0) with
    | some chomping, _ =>
      match digit (charAt spots 1) with
      | some n => (BlockHeader.mk folds chomping (some n), spots.drop 2)
      | none => (⟨folds, chomping, none⟩, spots.drop 1)
    | none, some n =>
      match chomping? (charAt spots 1) with
      | some chomping => (⟨folds, chomping, some n⟩, spots.drop 2)
      | none => (⟨folds, .clip, some n⟩, spots.drop 1)
    | none, none => (⟨folds, .clip, none⟩, spots)
  if found.1.increment = some 0 then none else some found

def toLineEnd (spots : Spots) : Option Spots :=
  let spots := spots.dropWhile (isBlank ·.char)
  let spots :=
    if charAt spots 0 == '#' then
      spots.dropWhile fun spot => !isBreak spot.char && spot.char != endMark
    else spots
  if isBreak (charAt spots 0) then some (spots.drop 1)
  else if charAt spots 0 == endMark then some spots
  else none

def blockScalar (folds : Bool) (parent : Int) (spots : Spots) : Option (String × Spots) := do
  let (header, spots) ← blockHeader folds spots
  let spots ← toLineEnd spots
  let indent := header.increment.map fun n => (max parent 0).toNat + n
  blockLines header (parent + 1).toNat ⟨[], none, [], false, indent, 0, false⟩ spots

end RuleGraph.Yaml

import RuleGraph.Yaml.Token
/-!
# Tokens of a text

Blocks begin and end where the indentation changes. Whether a scalar is a key shows only at the
colon after it, so that the place of each possible key is kept until then, one for every flow
collection that is open.
-/
namespace RuleGraph.Yaml

/-- A place where a key may have begun. -/
structure KeyPlace where
  required : Bool
  number : Nat
  line : Nat
  column : Nat
  offset : Nat

structure Layout where
  rest : Spots
  tokens : List Token
  indent : Int
  outer : List Int
  keyAllowed : Bool
  /-- The possible key of the innermost flow collection or of the block around all of them. -/
  place : Option KeyPlace
  outerPlaces : List (Option KeyPlace)

namespace Layout

def start (spots : Spots) : Layout :=
  ⟨spots, [], -1, [], true, none, []⟩

def inFlow (l : Layout) : Bool :=
  !l.outerPlaces.isEmpty

def emit (l : Layout) (token : Token) : Layout :=
  { l with tokens := token :: l.tokens }

def skip (l : Layout) (n : Nat) : Layout :=
  { l with rest := l.rest.drop n }

/-- Puts a token behind the first `number` tokens. -/
def insert (l : Layout) (number : Nat) (token : Token) : Layout :=
  let after := l.tokens.length - number
  { l with tokens := l.tokens.take after ++ token :: l.tokens.drop after }

/-- Drops blanks, breaks and comments in front of the next token; also whether a key may begin after
them. Where a key may begin a tab is no blank. A byte order mark that begins a line is dropped, but
what follows it does not stand at the first column. -/
def toToken (flow : Bool) : (keyAllowed inComment : Bool) → Spots → Spots × Bool
  | keyAllowed, _, [] => ([], keyAllowed)
  | keyAllowed, inComment, spot :: rest =>
    let c := spot.char
    if isBreak c then toToken flow (keyAllowed || !flow) false rest
    else if c == endMark then (spot :: rest, keyAllowed)
    else if inComment then toToken flow keyAllowed true rest
    else if c == ' ' || (c == '\t' && (flow || !keyAllowed)) || (isMark c && spot.column == 0) then
      toToken flow keyAllowed false rest
    else if c == '#' then toToken flow keyAllowed true rest
    else (spot :: rest, keyAllowed)

/-- A key is on one line and not longer than 1024 bytes. -/
def KeyPlace.isStale (place : KeyPlace) (spots : Spots) : Bool :=
  decide (place.line < line spots) || decide (place.offset + 1024 < offset spots)

def dropPlace (place : Option KeyPlace) : Option (Option KeyPlace) :=
  match place with
  | some p => if p.required then none else some none
  | none => some none

def dropIfStale (spots : Spots) (place : Option KeyPlace) : Option (Option KeyPlace) :=
  match place with
  | some p => if KeyPlace.isStale p spots then dropPlace place else some place
  | none => some none

def dropStale (l : Layout) : Option Layout := do
  let place ← dropIfStale l.rest l.place
  let outerPlaces ← l.outerPlaces.mapM (dropIfStale l.rest)
  some { l with place := place, outerPlaces := outerPlaces }

def removeKey (l : Layout) : Option Layout :=
  (dropPlace l.place).map fun place => { l with place := place }

def saveKey (l : Layout) : Option Layout :=
  if l.keyAllowed then
    l.removeKey.map fun l =>
      let required := !l.inFlow && l.indent == (column l.rest : Int)
      let place := ⟨required, l.tokens.length, line l.rest, column l.rest, offset l.rest⟩
      { l with place := some place }
  else some l

/-- Ends the blocks that are indented further than a column. -/
def unroll (indents : List Int) (column : Int) (tokens : List Token) (indent : Int) :
    List Token × Int × List Int :=
  if indent ≤ column then (tokens, indent, indents)
  else
    match indents with
    | [] => (.blockEnd :: tokens, -1, [])
    | outer :: rest => unroll rest column (.blockEnd :: tokens) outer

def unrollTo (l : Layout) (column : Int) : Layout :=
  if l.inFlow then l
  else
    let (tokens, indent, outer) := unroll l.outer column l.tokens l.indent
    { l with tokens := tokens, indent := indent, outer := outer }

def roll (l : Layout) (column number : Nat) (token : Token) : Layout :=
  if !l.inFlow && l.indent < column then
    { l.insert number token with indent := column, outer := l.indent :: l.outer }
  else l

def documentMark (l : Layout) (token : Token) (length : Nat) : Option Layout := do
  let l ← (l.unrollTo (-1)).removeKey
  some ({ l with keyAllowed := false }.emit token |>.skip length)

def directiveLine (l : Layout) : Option Layout := do
  let l ← (l.unrollTo (-1)).removeKey
  let (token, rest) ← directive (l.rest.drop 1)
  some ({ l with keyAllowed := false, rest := rest }.emit token)

def openFlow (l : Layout) (token : Token) : Option Layout := do
  let l ← l.saveKey
  let l := { l with keyAllowed := true, place := none, outerPlaces := l.place :: l.outerPlaces }
  some (l.emit token |>.skip 1)

def closeFlow (l : Layout) (token : Token) : Option Layout := do
  let l ← l.removeKey
  let l := { l with keyAllowed := false }.emit token |>.skip 1
  match l.outerPlaces with
  | [] => some l
  | place :: outerPlaces => some { l with place := place, outerPlaces := outerPlaces }

def separateFlow (l : Layout) : Option Layout := do
  let l ← l.removeKey
  some ({ l with keyAllowed := true }.emit .flowEntry |>.skip 1)

/-- An entry, key or value indicator that begins a block of its own unless it is inside one. -/
def indicator (l : Layout) (block token : Token) (keyAllowed : Bool) : Option Layout := do
  if !l.inFlow && !l.keyAllowed then none
  let l ← (l.roll (column l.rest) l.tokens.length block).removeKey
  some ({ l with keyAllowed := keyAllowed }.emit token |>.skip 1)

/-- A colon. What was kept as the place of a key is one. -/
def valueMark (l : Layout) : Option Layout :=
  match l.place with
  | some p =>
    let l := (l.insert p.number .key).roll p.column p.number .blockMappingStart
    some ({ l with place := none, keyAllowed := false }.emit .value |>.skip 1)
  | none => l.indicator .blockMappingStart .value (!l.inFlow)

def property (l : Layout) (read : Spots → Option (Token × Spots)) : Option Layout := do
  let l ← l.saveKey
  let (token, rest) ← read l.rest
  some ({ l with keyAllowed := false, rest := rest }.emit token)

def named (make : String → Token) (spots : Spots) : Option (Token × Spots) :=
  (anchorName (spots.drop 1)).map fun (name, rest) => (make name, rest)

def block (l : Layout) (folds : Bool) : Option Layout := do
  let l ← l.removeKey
  let (text, rest) ← blockScalar folds l.indent (l.rest.drop 1)
  some ({ l with keyAllowed := true, rest := rest }.emit
    (.scalar (if folds then .other else .literal) text))

def quotedScalar (l : Layout) (quote : Char) : Option Layout := do
  let l ← l.saveKey
  let (text, rest) ← quoted quote [] .none .text (l.rest.drop 1)
  some ({ l with keyAllowed := false, rest := rest }.emit (.scalar .other text))

def plainScalar (l : Layout) : Option Layout := do
  let l ← l.saveKey
  let found ← plain l.inFlow (l.indent + 1).toNat [] false .none l.rest
  some ({ l with keyAllowed := found.crossed, rest := found.rest }.emit (.scalar .plain found.text))

def beginsPlain (flow : Bool) (c next : Char) : Bool :=
  let indicators := "-?:,[]\x7b\x7d#&*!|>'\"%@\x60".toList
  !(isGap c || indicators.contains c)
    || (c == '-' && !isBlank next)
    || (!flow && (c == '?' || c == ':') && !isGap next)

def token (l : Layout) (c next : Char) : Option Layout :=
  if column l.rest == 0 && c == '%' then l.directiveLine
  else if atDocumentMark l.rest then
    l.documentMark (if c == '-' then .documentStart else .documentEnd) 3
  else if c == '[' then l.openFlow .flowSequenceStart
  else if c == '\x7b' then l.openFlow .flowMappingStart
  else if c == ']' then l.closeFlow .flowSequenceEnd
  else if c == '\x7d' then l.closeFlow .flowMappingEnd
  else if c == ',' then l.separateFlow
  else if c == '-' && isGap next then l.indicator .blockSequenceStart .blockEntry true
  else if c == '?' && (l.inFlow || isGap next) then l.indicator .blockMappingStart .key (!l.inFlow)
  else if c == ':' && (l.inFlow || isGap next) then l.valueMark
  else if c == '*' then l.property (named .alias)
  else if c == '&' then l.property (named .anchor)
  else if c == '!' then l.property (tag l.inFlow)
  else if c == '|' && !l.inFlow then l.block false
  else if c == '>' && !l.inFlow then l.block true
  else if c == '\'' || c == '"' then l.quotedScalar c
  else if beginsPlain l.inFlow c next then l.plainScalar
  else none

def step (l : Layout) : Option Layout := do
  let (rest, keyAllowed) := toToken l.inFlow l.keyAllowed false l.rest
  let l ← { l with rest := rest, keyAllowed := keyAllowed }.dropStale
  let l := l.unrollTo (column l.rest)
  let c := charAt l.rest 0
  if c == endMark then l.documentMark .streamEnd l.rest.length
  else l.token c (charAt l.rest 1)

def run : (k : Nat) → Layout → Option Layout
  | 0, _ => none
  | k + 1, l =>
    if l.rest.isEmpty then some l else l.step.bind (run k)

end Layout

/-- The tokens of a text. Every step consumes a spot. -/
def tokens (spots : Spots) : Option (List Token) :=
  (Layout.run (spots.length + 1) (.start spots)).map (·.tokens.reverse)

end RuleGraph.Yaml

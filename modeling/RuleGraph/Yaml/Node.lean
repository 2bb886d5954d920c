import RuleGraph.Yaml.Layout
/-!
# Trees

The tree of the only document of a text. An alias refers to an anchored node by number: an anchor
takes as its number how many different names there were before it, and a number that is taken again
refers to the later node.
-/
namespace RuleGraph.Yaml

abbrev Tag := List UInt8

def bareTag : Tag :=
  utf8 "!"

inductive Node where
  | alias (number : Nat)
  | scalar (tag : Option Tag) (style : Style) (text : String)
  | sequence (tag : Option Tag) (items : List Node)
  | mapping (tag : Option Tag) (pairs : List (Node × Node))
  deriving Inhabited, Repr

/-- A tree, the nodes that aliases refer to, and how often aliases may be followed. -/
structure Document where
  root : Node
  anchored : List (Nat × Node)
  jumps : Nat

structure Progress where
  tokens : List Token
  handles : List (String × Tag)
  names : List (String × Nat)
  /-- For each number the events in front of its node, the latest first. -/
  starts : List (Nat × Nat)
  anchored : List (Nat × Node)
  events : Nat

abbrev Parse := StateT Progress Option

namespace Parse

def peek : Parse Token := do
  return (← get).tokens.headD .streamEnd

def advance : Parse Unit :=
  modify fun p => { p with tokens := p.tokens.drop 1 }

def expect (token : Token) : Parse Unit := do
  if (← peek) == token then advance else failure

def event : Parse Unit :=
  modify fun p => { p with events := p.events + 1 }

def empty : Parse Node := do
  event
  return .scalar none .plain ""

def nodeOrEmpty (stops : List Token) (node : Parse Node) : Parse Node := do
  if stops.contains (← peek) then empty else node

def resolve (handle : String) (suffix : Tag) : Parse Tag := do
  if handle.isEmpty then return suffix
  match (← get).handles.lookup handle with
  | some stands => return stands ++ suffix
  | none => failure

def anchor? : Parse (Option String) := do
  match ← peek with
  | .anchor name => advance; return some name
  | _ => return none

def tag? : Parse (Option Tag) := do
  match ← peek with
  | .tag handle suffix => advance; return some (← resolve handle suffix)
  | _ => return none

def properties : Parse (Option String × Option Tag) := do
  match ← anchor? with
  | some name => return (some name, ← tag?)
  | none =>
    match ← tag? with
    | some tag => return (← anchor?, some tag)
    | none => return (none, none)

def register (name : String) : Parse Unit :=
  modify fun p =>
    let number := p.names.length
    { p with
      names := (name, number) :: p.names.filter (·.1 != name)
      starts := (number, p.events) :: p.starts }

def anchored (name : Option String) (node : Parse Node) : Parse Node := do
  match name with
  | none => node
  | some name =>
    let start := (← get).events
    register name
    let n ← node
    modify fun p => { p with anchored := (start, n) :: p.anchored }
    return n

def collection {α : Type} (body : Parse α) : Parse α := do
  event
  let found ← body
  event
  return found

mutual

/-- A node; `block` tells whether it may be a block, and `indentless` whether that may be a sequence
without an indentation of its own. -/
def node (block indentless : Bool) : (fuel : Nat) → Parse Node
  | 0 => failure
  | fuel + 1 => do
    match ← peek with
    | .alias name =>
      advance
      event
      match (← get).names.lookup name with
      | some number => return .alias number
      | none => failure
    | _ =>
      let (name, tag) ← properties
      anchored name do
        match ← peek with
        | .scalar style text =>
          advance
          event
          return .scalar (if tag = some bareTag then none else tag) style text
        | .flowSequenceStart =>
          advance; return .sequence tag (← collection (flowItems true fuel))
        | .flowMappingStart => advance; return .mapping tag (← collection (flowPairs true fuel))
        | token =>
          if indentless && token == .blockEntry then
            return .sequence tag (← collection (bareItems fuel))
          else if block && token == .blockSequenceStart then
            advance
            return .sequence tag (← collection (blockItems fuel))
          else if block && token == .blockMappingStart then
            advance
            return .mapping tag (← collection (blockPairs fuel))
          else if name.isSome || tag.isSome then
            event
            return .scalar tag .plain ""
          else failure

def blockItems : (fuel : Nat) → Parse (List Node)
  | 0 => failure
  | fuel + 1 => do
    match ← peek with
    | .blockEntry =>
      advance
      let item ← nodeOrEmpty [.blockEntry, .blockEnd] (node true false fuel)
      return item :: (← blockItems fuel)
    | .blockEnd => advance; return []
    | _ => failure

def bareItems : (fuel : Nat) → Parse (List Node)
  | 0 => failure
  | fuel + 1 => do
    match ← peek with
    | .blockEntry =>
      advance
      let item ← nodeOrEmpty [.blockEntry, .key, .value, .blockEnd] (node true false fuel)
      return item :: (← bareItems fuel)
    | _ => return []

def blockPairs : (fuel : Nat) → Parse (List (Node × Node))
  | 0 => failure
  | fuel + 1 => do
    let stops := [Token.key, .value, .blockEnd]
    match ← peek with
    | .key =>
      advance
      let key ← nodeOrEmpty stops (node true true fuel)
      let value ←
        if (← peek) == .value then do
          advance
          nodeOrEmpty stops (node true true fuel)
        else empty
      return (key, value) :: (← blockPairs fuel)
    | .blockEnd => advance; return []
    | _ => failure

def flowItems (first : Bool) : (fuel : Nat) → Parse (List Node)
  | 0 => failure
  | fuel + 1 => do
    if (← peek) == .flowSequenceEnd then
      advance
      return []
    if !first then expect .flowEntry
    match ← peek with
    | .flowSequenceEnd => advance; return []
    | .key =>
      advance
      let pair ← collection (flowPair fuel)
      return .mapping none [pair] :: (← flowItems false fuel)
    | _ =>
      let item ← node false false fuel
      return item :: (← flowItems false fuel)

/-- The only pair of a mapping that stands as an item. A missing key takes a token with it. -/
def flowPair : (fuel : Nat) → Parse (Node × Node)
  | 0 => failure
  | fuel + 1 => do
    let key ←
      if [Token.value, .flowEntry, .flowSequenceEnd].contains (← peek) then do
        advance
        empty
      else node false false fuel
    if (← peek) == .value then
      advance
      return (key, ← nodeOrEmpty [.flowEntry, .flowSequenceEnd] (node false false fuel))
    else return (key, ← empty)

def flowPairs (first : Bool) : (fuel : Nat) → Parse (List (Node × Node))
  | 0 => failure
  | fuel + 1 => do
    if (← peek) == .flowMappingEnd then
      advance
      return []
    if !first then expect .flowEntry
    match ← peek with
    | .flowMappingEnd => advance; return []
    | .key =>
      advance
      let key ← nodeOrEmpty [.value, .flowEntry, .flowMappingEnd] (node false false fuel)
      let value ←
        if (← peek) == .value then do
          advance
          nodeOrEmpty [.flowEntry, .flowMappingEnd] (node false false fuel)
        else empty
      return (key, value) :: (← flowPairs false fuel)
    | _ =>
      let key ← node false false fuel
      let value ← empty
      return (key, value) :: (← flowPairs false fuel)

end

def defaultHandles : List (String × Tag) :=
  [("!", bareTag), ("!!", utf8 "tag:yaml.org,2002:")]

def directives (versioned : Bool) : (fuel : Nat) → Parse Unit
  | 0 => failure
  | fuel + 1 => do
    match ← peek with
    | .version major minor =>
      if versioned || major != 1 || (minor != 1 && minor != 2) then failure
      advance
      directives true fuel
    | .handle name stands =>
      let p ← get
      if (p.handles.lookup name).isSome then failure
      set { p with handles := (name, stands) :: p.handles }
      advance
      directives versioned fuel
    | _ => return ()

def documentEnds : Parse Unit := do
  modify fun p => { p with tokens := p.tokens.dropWhile (· == .documentEnd) }
  if (← peek) != .streamEnd then failure

def document : Parse Node := do
  let fuel := 4 * (← get).tokens.length + 4
  match ← peek with
  | .streamEnd => empty
  | .version _ _ | .handle _ _ | .documentStart =>
    directives false fuel
    modify fun p => { p with handles := p.handles ++ defaultHandles }
    expect .documentStart
    let root ← match ← peek with
      | .version _ _ | .handle _ _ | .documentStart | .documentEnd | .streamEnd => empty
      | _ => node true false fuel
    documentEnds
    return root
  | _ =>
    modify fun p => { p with handles := defaultHandles }
    let root ← node true false fuel
    documentEnds
    return root

end Parse

/-- An alias may be followed as often as there are events, a hundred times over. -/
def Document.ofTokens (tokens : List Token) : Option Document := do
  let (root, p) ← Parse.document ⟨tokens, [], [], [], [], 0⟩
  let numbers := (p.starts.map Prod.fst).eraseDups
  let anchored := numbers.filterMap fun number => do
    let start ← p.starts.lookup number
    let node ← p.anchored.lookup start
    some (number, node)
  some ⟨root, anchored, 100 * p.events⟩

def Document.read (bytes : List UInt8) : Option Document := do
  Document.ofTokens (← tokens (← spots bytes))

end RuleGraph.Yaml

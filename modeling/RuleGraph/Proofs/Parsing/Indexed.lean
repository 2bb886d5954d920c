import RuleGraph.Expr.Parser
/-!
# Parsing by position

The parser over all tokens of a text and a position among them. The position goes on token by token;
where a token has been passed before it is refused, it goes back by one. How deep the parser is
nested is counted on the way in and on the way out. A run that needs more calls inside each other
than are allowed has no outcome, which is then `none`; a loop calls itself to go on. What is done
with the position is recorded.
-/
namespace RuleGraph
namespace Indexed

/-- What is done with the position, and where it is before that. -/
inductive Event where
  | look (pos : Nat)
  | advance (pos width : Nat)
  | stepBack (pos : Nat)

structure State where
  tokens : List Token
  pos : Nat
  nesting : Nat
  operators : Nat
  /-- What has been done with the position, the first event first. -/
  events : List Event

namespace State

def start (tokens : List Token) : State :=
  ⟨tokens, 0, 0, 0, []⟩

/-- The token that stands some places behind the position; behind the last token it is that one. -/
def tokenAt (s : State) (offset : Nat) : Option Token :=
  s.tokens[s.pos + offset]?.or s.tokens.getLast?

def lexemeAt (s : State) (offset : Nat) : Lexeme :=
  (s.tokenAt offset).elim .eof Token.lexeme

def looked (s : State) : State :=
  { s with events := s.events ++ [.look s.pos] }

def forward (s : State) (width : Nat) : State :=
  { s with pos := s.pos + width, events := s.events ++ [.advance s.pos width] }

def back (s : State) : State :=
  { s with pos := s.pos - 1, events := s.events ++ [.stepBack s.pos] }

def counted (s : State) : State :=
  { s with operators := s.operators + 1 }

def entered (s : State) : State :=
  { s with nesting := s.nesting + 1 }

def exited (s : State) : State :=
  { s with nesting := s.nesting - 1 }

end State

/-- A run ends with a result or an error and leaves a state behind, or it has not enough calls. -/
abbrev Machine := ExceptT ParseError (StateT State Option)

variable {α : Type}

def peekAt (offset : Nat) : Machine Lexeme :=
  fun s => some (.ok (s.lexemeAt offset), s.looked)

def peek : Machine Lexeme :=
  peekAt 0

def place : Machine Nat :=
  fun s => some (.ok ((s.tokenAt 0).elim 0 Token.position), s.looked)

def fail (fault : Fault) : Machine α := do
  throw (.malformed (← place) fault)

def refuse (what : Expected) : Machine α := do
  match ← peek with
  | .eof => throw (.unexpectedEnd (some what))
  | found => throw (.malformed (← place) (.expected what found))

def jump (width : Nat) : Machine Unit :=
  fun s => some (.ok (), s.forward width)

def advance : Machine Lexeme := do
  let lexeme ← peek
  fun s => some (.ok lexeme, if s.pos < s.tokens.length then s.forward 1 else s)

def stepBack : Machine Unit :=
  fun s => some (.ok (), s.back)

def eat (lexeme : Lexeme) : Machine Bool := do
  if (← peek) == lexeme then
    let _ ← advance
    return true
  else return false

def expect (lexeme : Lexeme) (what : Expected) : Machine Unit := do
  if ← eat lexeme then pure () else refuse what

def expectEnd : Machine Unit := do
  match ← peek with
  | .eof => pure ()
  | found => fail (.trailing found)

/-- An operator counts before the limit is checked. -/
def countOperator : Machine Unit := fun s =>
  if maxOperators < s.counted.operators then fail .tooManyOperators s.counted
  else some (.ok (), s.counted)

/-- The chains of operands with operators between them. -/
inductive Chain where
  | coalescence | disjunction | conjunction | equality | order | membership | sum | product
  /-- Comparisons of `$` with `or` between them. -/
  | eitherComparison
  /-- Comparisons of `$` with `and` between them. -/
  | bothComparisons
  /-- The alternatives of a cell with commas between them. -/
  | alternatives

/-- The parts of the parser. -/
inductive Part where
  | deeper (part : Part)
  | conditional
  | chain (C : Chain)
  | signed
  | power
  | access
  | primary
  | intervalRest (start : Expr) (startIncluded : Bool)
  | objectRest
  | callRest (name : String)
  | cellItem
  | comparison

/-- The loops of the parser, each up to the end of the part that it belongs to. -/
inductive Loop where
  | operators (C : Chain) (left : Expr)
  | members (e : Expr)
  | items (items : List Expr)
  | entries (entries : List (String × Expr))
  | arguments (f : Builtin) (args : List Expr)

/-- A whole expression, one level deeper. -/
abbrev Part.expression : Part := .deeper .conditional

namespace Chain

def operand : Chain → Part
  | coalescence => .chain .disjunction
  | disjunction => .chain .conjunction
  | conjunction => .chain .equality
  | equality => .chain .order
  | order => .chain .membership
  | membership => .chain .sum
  | sum => .chain .product
  | product => .signed
  | eitherComparison => .chain .bothComparisons
  | bothComparisons => .comparison
  | alternatives => .cellItem

def choice : Chain → Parser.Choice
  | coalescence => Parser.coalesceChoice
  | disjunction => Parser.orChoice
  | conjunction => Parser.andChoice
  | equality => Parser.equalityChoice
  | order => Parser.orderChoice
  | membership => Parser.membershipChoice
  | sum => Parser.sumChoice
  | product => Parser.productChoice
  | eitherComparison => Parser.beforeComparison Parser.orChoice
  | bothComparisons => Parser.beforeComparison Parser.andChoice
  | alternatives => Parser.commaChoice

def single (choice : Parser.Choice) (lexeme : Lexeme) : Option Operator :=
  (choice ⟨[⟨lexeme, 0⟩], 0⟩).map Prod.fst

def readSingle (choice : Parser.Choice) : Machine (Option Operator) := do
  match single choice (← peek) with
  | some op =>
    let _ ← advance
    return some op
  | none => return none

def readBeforeComparison (choice : Parser.Choice) : Machine (Option Operator) := do
  match single choice (← peek) with
  | some op =>
    if (← peekAt 1).isComparison then
      let _ ← advance
      return some op
    else return none
  | none => return none

def ahead : Machine Cursor := do
  let first ← peek
  let second ← peekAt 1
  return ⟨[⟨first, 0⟩, ⟨second, 0⟩], 0⟩

def readMembership : Machine (Option Operator) := do
  match Parser.membershipChoice (← ahead) with
  | some (op, double) =>
    let _ ← advance
    if double then
      let _ ← advance
      return some op
    else return some op
  | none => return none

def readOperator : Chain → Machine (Option Operator)
  | membership => readMembership
  | eitherComparison => readBeforeComparison Parser.orChoice
  | bothComparisons => readBeforeComparison Parser.andChoice
  | C => readSingle C.choice

end Chain

def comparison? : Lexeme → Option Operator
  | .equal => some .eq
  | .notEqual => some .ne
  | .less => some .lt
  | .lessEqual => some .le
  | .greater => some .gt
  | .greaterEqual => some .ge
  | _ => none

def finishCall (f : Builtin) (args : List Expr) : Machine Expr :=
  if f.accepts args.length then return .call f args else throw (.invalidArity f args.length)

mutual

/-- Reads a part of an expression or of a cell. -/
def parse : (calls : Nat) → Part → Machine Expr
  | 0, _ => fun _ => none
  | calls + 1, .deeper part => fun s =>
    if maxNesting < s.entered.nesting then fail .tooDeep s
    else do
      let (result, s) ← parse calls part s.entered
      return (result, s.exited)
  | calls + 1, .conditional => do
    let condition ← parse calls (.chain .coalescence)
    if ← eat .question then
      let yes ← parse calls .expression
      expect .colon .ternaryColon
      let no ← parse calls .expression
      return .ternary condition yes no
    else return condition
  | calls + 1, .chain C => do
    let first ← parse calls C.operand
    loop calls (.operators C first)
  | calls + 1, .signed => do
    match ← peek with
    | .notWord | .bang =>
      let _ ← advance
      return .unary .not (← parse calls (.deeper .signed))
    | .minus =>
      let _ ← advance
      return Parser.negated (← parse calls (.deeper .signed))
    | _ => parse calls .power
  | calls + 1, .power => do
    let base ← parse calls .access
    if ← eat .caret then return .binary base .pow (← parse calls (.deeper .signed))
    else return base
  | calls + 1, .access => do
    let e ← parse calls .primary
    loop calls (.members e)
  | calls + 1, .primary => do
    let lexeme ← peek
    match Parser.atom? lexeme, lexeme with
    | some e, _ =>
      let _ ← advance
      return e
    | none, .identifier name =>
      let _ ← advance
      if (← peek) == .openParen then parse calls (.callRest name) else return .field [name]
    | none, .openParen =>
      let _ ← advance
      let first ← parse calls .expression
      if ← eat .dots then parse calls (.intervalRest first false)
      else
        expect .closeParen .closeParen
        return first
    | none, .openBracket =>
      let _ ← advance
      if ← eat .closeBracket then return .array []
      else
        let first ← parse calls .expression
        if ← eat .dots then parse calls (.intervalRest first true) else loop calls (.items [first])
    | none, .openBrace =>
      let _ ← advance
      parse calls .objectRest
    | none, _ => refuse .expression
  | calls + 1, .intervalRest start startIncluded => do
    let stop ← parse calls (.chain .sum)
    match ← peek with
    | .closeBracket =>
      let _ ← advance
      return .interval start stop startIncluded true
    | .closeParen =>
      let _ ← advance
      return .interval start stop startIncluded false
    | _ => refuse .intervalEnd
  | calls + 1, .objectRest => loop calls (.entries [])
  | calls + 1, .callRest name => do
    match Builtin.ofName? name with
    | none => throw (.unknownFunction name)
    | some f =>
      expect .openParen .openParen
      if ← eat .closeParen then finishCall f [] else loop calls (.arguments f [])
  | calls + 1, .cellItem => do
    if (← peek).isComparison then parse calls (.chain .eitherComparison)
    else
      match Parser.membershipChoice (← Chain.ahead) with
      | some (op, double) =>
        jump (bif double then 2 else 1)
        return .binary .subject op (← parse calls (.chain .sum))
      | none => return Parser.testOf (← parse calls .expression)
  | calls + 1, .comparison => do
    match comparison? (← advance) with
    | some op => return .binary .subject op (← parse calls (.chain .sum))
    | none =>
      stepBack
      refuse .comparison

/-- Goes on with a loop. -/
def loop : (calls : Nat) → Loop → Machine Expr
  | 0, _ => fun _ => none
  | calls + 1, .operators C left => do
    match ← C.readOperator with
    | none => return left
    | some op =>
      countOperator
      let right ← parse calls C.operand
      loop calls (.operators C (.binary left op right))
  | calls + 1, .members e => do
    match ← peek with
    | .dot =>
      let _ ← advance
      match ← advance with
      | .identifier name => loop calls (.members (Parser.memberOf e name))
      | _ =>
        stepBack
        refuse .memberName
    | .openBracket =>
      let _ ← advance
      let key ← parse calls .expression
      expect .closeBracket .closeBracket
      loop calls (.members (.index e key))
    | _ => return e
  | calls + 1, .items items => do
    if ← eat .comma then
      if (← peek) == .closeBracket then
        expect .closeBracket .closeBracket
        return .array items
      else
        let item ← parse calls .expression
        loop calls (.items (items ++ [item]))
    else
      expect .closeBracket .closeBracket
      return .array items
  | calls + 1, .entries entries => do
    if ← eat .closeBrace then return .object entries
    else
      match ← advance with
      | .identifier key | .string key =>
        expect .colon .keyColon
        let value ← parse calls .expression
        if ← eat .comma then loop calls (.entries (entries ++ [(key, value)]))
        else
          expect .closeBrace .closeBrace
          return .object (entries ++ [(key, value)])
      | _ =>
        stepBack
        refuse .objectKey
  | calls + 1, .arguments f args => do
    let arg ← parse calls .expression
    if ← eat .closeParen then finishCall f (args ++ [arg])
    else
      expect .comma .argumentEnd
      loop calls (.arguments f (args ++ [arg]))

end

def wholeExpression (calls : Nat) : Machine Expr := do
  let e ← parse calls .expression
  expectEnd
  return e

def wholeCell (calls : Nat) : Machine Expr := do
  let e ← parse calls (.chain .alternatives)
  expectEnd
  return e

end Indexed
end RuleGraph

import RuleGraph.Expr.Cursor
import RuleGraph.Expr.Lexer
/-!
# Parsing expressions

The levels of the grammar, each above the one that binds tighter: conditional, `??`, `or`, `and`,
equality, order, membership, sums, products, signs, powers, member access, and what stands alone.
What lies inside brackets or behind a sign or a caret is one level of nesting deeper.
-/
namespace RuleGraph
namespace Parser

/-- The parsers for the parts of an expression that come after some token of it. -/
structure Inner where
  expression : Parser Expr
  signed : Parser Expr
  bound : Parser Expr

def atom? (lexeme : Lexeme) : Option Expr :=
  match lexeme with
  | .number x => some (.number x)
  | .string s => some (.string s)
  | .trueWord => some (.bool true)
  | .falseWord => some (.bool false)
  | .nullWord => some (.literal .null)
  | .dollar => some .subject
  | .hash => some .element
  | _ => none

/-- The rest of an interval after its first end and the dots. -/
def intervalRest (inner : Inner) (start : Expr) (startIncluded : Bool) : Parser Expr := do
  let stop ← inner.bound
  match ← peek with
  | .closeBracket => skip; return .interval start stop startIncluded true
  | .closeParen => skip; return .interval start stop startIncluded false
  | _ => refuse .intervalEnd

def itemsRest (inner : Inner) : (fuel : Nat) → List Expr → Parser (List Expr)
  | 0, items => pure items
  | fuel + 1, items => do
    if ← eat .comma then
      if (← peek) == .closeBracket then return items
      let item ← inner.expression
      itemsRest inner fuel (items ++ [item])
    else return items

def bracketRest (inner : Inner) : Parser Expr := do
  if ← eat .closeBracket then return .array []
  let first ← inner.expression
  if ← eat .dots then intervalRest inner first true
  else
    let items ← itemsRest inner (← left) [first]
    expect .closeBracket .closeBracket
    return .array items

def parenRest (inner : Inner) : Parser Expr := do
  let first ← inner.expression
  if ← eat .dots then intervalRest inner first false
  else
    expect .closeParen .closeParen
    return first

def entriesRest (inner : Inner) : (fuel : Nat) → List (String × Expr) → Parser Expr
  | 0, entries => pure (.object entries)
  | fuel + 1, entries => do
    match ← peek with
    | .closeBrace => skip; return .object entries
    | .identifier key | .string key =>
      skip
      expect .colon .keyColon
      let value ← inner.expression
      let entries := entries ++ [(key, value)]
      if ← eat .comma then entriesRest inner fuel entries
      else
        expect .closeBrace .closeBrace
        return .object entries
    | _ => refuse .objectKey

def argumentsRest (inner : Inner) : (fuel : Nat) → List Expr → Parser (List Expr)
  | 0, args => pure args
  | fuel + 1, args => do
    let arg ← inner.expression
    let args := args ++ [arg]
    if ← eat .closeParen then return args
    expect .comma .argumentEnd
    argumentsRest inner fuel args

/-- A call after the name of the function, which is checked before its arguments are read. -/
def callRest (inner : Inner) (name : String) : Parser Expr := do
  match Builtin.ofName? name with
  | none => throw (.unknownFunction name)
  | some f =>
    expect .openParen .openParen
    let args ←
      if ← eat .closeParen then pure []
      else do argumentsRest inner (← left) []
    if f.accepts args.length then return .call f args
    else throw (.invalidArity f args.length)

def primary (inner : Inner) : Parser Expr := do
  let lexeme ← peek
  match atom? lexeme, lexeme with
  | some e, _ => skip; return e
  | none, .identifier name =>
    skip
    if (← peek) == .openParen then callRest inner name else return .field [name]
  | none, .openParen => skip; parenRest inner
  | none, .openBracket => skip; bracketRest inner
  | none, .openBrace => do
    skip
    entriesRest inner (← left) []
  | none, _ => refuse .expression

def memberOf (e : Expr) (name : String) : Expr :=
  match e with
  | .field path => .field (path ++ [name])
  | e => .index e (.string name)

def accessRest (inner : Inner) : (fuel : Nat) → Expr → Parser Expr
  | 0, e => pure e
  | fuel + 1, e => do
    match ← peek with
    | .dot =>
      skip
      match ← peek with
      | .identifier name => skip; accessRest inner fuel (memberOf e name)
      | _ => refuse .memberName
    | .openBracket =>
      skip
      let key ← inner.expression
      expect .closeBracket .closeBracket
      accessRest inner fuel (.index e key)
    | _ => pure e

def access (inner : Inner) : Parser Expr := do
  let e ← primary inner
  accessRest inner (← left) e

/-- A power; it groups to the right and binds tighter than a sign in front of it. -/
def power (inner : Inner) : Parser Expr := do
  let base ← access inner
  if ← eat .caret then return .binary base .pow (← inner.signed)
  else return base

/-- The sign of an operand; that of a number becomes part of it. -/
def negated : Expr → Expr
  | .literal (.number x) => .number (-x)
  | e => .unary .negate e

def signed (inner : Inner) : Parser Expr := do
  match ← peek with
  | .notWord | .bang => do
    skip
    return .unary .not (← inner.signed)
  | .minus => do
    skip
    return negated (← inner.signed)
  | _ => power inner

def productChoice : Choice := fun c =>
  match c.head with
  | .star => some (.mul, false)
  | .slash => some (.div, false)
  | .percent => some (.mod, false)
  | _ => none

def sumChoice : Choice := fun c =>
  match c.head with
  | .plus => some (.add, false)
  | .minus => some (.sub, false)
  | _ => none

def membershipChoice : Choice := fun c =>
  match c.head, c.second with
  | .inWord, _ => some (.member, false)
  | .notWord, .inWord => some (.notMember, true)
  | _, _ => none

def orderChoice : Choice := fun c =>
  match c.head with
  | .less => some (.lt, false)
  | .lessEqual => some (.le, false)
  | .greater => some (.gt, false)
  | .greaterEqual => some (.ge, false)
  | _ => none

def equalityChoice : Choice := fun c =>
  match c.head with
  | .equal => some (.eq, false)
  | .notEqual => some (.ne, false)
  | _ => none

def andChoice : Choice := fun c =>
  match c.head with
  | .andWord | .andAnd => some (.and, false)
  | _ => none

def orChoice : Choice := fun c =>
  match c.head with
  | .orWord | .orOr => some (.or, false)
  | _ => none

def coalesceChoice : Choice := fun c =>
  match c.head with
  | .questions => some (.coalesce, false)
  | _ => none

def product (inner : Inner) : Parser Expr :=
  level productChoice (signed inner)

def sum (inner : Inner) : Parser Expr :=
  level sumChoice (product inner)

def membership (inner : Inner) : Parser Expr :=
  level membershipChoice (sum inner)

def order (inner : Inner) : Parser Expr :=
  level orderChoice (membership inner)

def equality (inner : Inner) : Parser Expr :=
  level equalityChoice (order inner)

def conjunction (inner : Inner) : Parser Expr :=
  level andChoice (equality inner)

def disjunction (inner : Inner) : Parser Expr :=
  level orChoice (conjunction inner)

def coalescence (inner : Inner) : Parser Expr :=
  level coalesceChoice (disjunction inner)

def conditional (inner : Inner) : Parser Expr := do
  let condition ← coalescence inner
  if ← eat .question then
    let yes ← inner.expression
    expect .colon .ternaryColon
    let no ← inner.expression
    return .ternary condition yes no
  else return condition

/-- The inner parsers where `depth` more levels of nesting are allowed. Each of them is used after a
token, so that as many as there are tokens are enough. -/
def inner : (fuel depth : Nat) → Inner
  | 0, _ => ⟨fail .tooDeep, fail .tooDeep, fail .tooDeep⟩
  | fuel + 1, depth =>
    { expression := fun c => match depth with
        | 0 => fail .tooDeep c
        | depth + 1 => conditional (inner fuel depth) c
      signed := fun c => match depth with
        | 0 => fail .tooDeep c
        | depth + 1 => signed (inner fuel depth) c
      bound := fun c => sum (inner fuel depth) c }

def wholeExpression : Parser Expr := do
  let e ← (inner (← left) maxNesting).expression
  expectEnd
  return e

/-- A comparison of `$` with the operand behind the operator. -/
def subjectComparison (inner : Inner) : Parser Expr := do
  let op ← match ← peek with
    | .equal => pure Operator.eq
    | .notEqual => pure .ne
    | .less => pure .lt
    | .lessEqual => pure .le
    | .greater => pure .gt
    | .greaterEqual => pure .ge
    | _ => refuse .comparison
  skip
  return .binary .subject op (← sum inner)

def beforeComparison (choice : Choice) : Choice := fun c =>
  if c.second.isComparison then choice c else none

def subjectComparisons (inner : Inner) : Parser Expr :=
  level (beforeComparison orChoice) (level (beforeComparison andChoice) (subjectComparison inner))

def testOf (e : Expr) : Expr :=
  if e.mentionsSubject then e
  else if e.isCollection then .binary .subject .member e
  else .binary .subject .eq e

def cellItem (inner : Inner) : Parser Expr := do
  let c ← get
  if c.head.isComparison then subjectComparisons inner
  else
    match membershipChoice c with
    | some (op, double) =>
      skip
      if double then skip
      return .binary .subject op (← sum inner)
    | none => return testOf (← inner.expression)

def commaChoice : Choice := fun c =>
  match c.head with
  | .comma => some (.or, false)
  | _ => none

def wholeCell : Parser Expr := do
  let e ← level commaChoice (cellItem (inner (← left) maxNesting))
  expectEnd
  return e

end Parser

namespace Expr

def parse (source : String) : Except ParseError Expr := do
  if Text.allBlank source then throw (.unexpectedEnd none)
  let tokens ← Lexer.tokens source
  let (e, _) ← Parser.wholeExpression ⟨tokens, 0⟩
  return e

/-- Parses the text of a table cell, a test of `$`. Nothing and a hyphen hold always; a comparison
or membership that begins with its operator has `$` in front; a list or interval holds its members;
what mentions `$` stands as written; and anything else is compared with `$`. -/
def parseCell (source : String) : Except ParseError Expr := do
  let source := Text.trim source
  if source = "" ∨ source = "-" then return .bool true
  let tokens ← Lexer.tokens source
  let (e, _) ← Parser.wholeCell ⟨tokens, 0⟩
  return e

end Expr
end RuleGraph

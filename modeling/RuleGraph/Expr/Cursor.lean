import RuleGraph.Expr.Basic
import RuleGraph.ParseError
/-!
# Steps through a list of tokens

A parser reads tokens from the left and counts the operators that it has met. The last token, `eof`,
is never passed.
-/
namespace RuleGraph

structure Cursor where
  tokens : List Token
  operators : Nat

namespace Cursor

def head (c : Cursor) : Lexeme :=
  match c.tokens with
  | [] => .eof
  | t :: _ => t.lexeme

def second (c : Cursor) : Lexeme :=
  match c.tokens with
  | _ :: t :: _ => t.lexeme
  | _ => .eof

def position (c : Cursor) : Nat :=
  match c.tokens with
  | [] => 0
  | t :: _ => t.position

def next (c : Cursor) : Cursor :=
  match c.tokens with
  | _ :: t :: rest => { c with tokens := t :: rest }
  | _ => c

def unexpected (c : Cursor) (what : Expected) : ParseError :=
  match c.head with
  | .eof => .unexpectedEnd (some what)
  | found => .malformed c.position (.expected what found)

end Cursor

abbrev Parser := StateT Cursor (Except ParseError)

namespace Parser
variable {α : Type}

def peek : Parser Lexeme :=
  fun c => .ok (c.head, c)

def skip : Parser Unit :=
  fun c => .ok ((), c.next)

def refuse (what : Expected) : Parser α :=
  fun c => .error (c.unexpected what)

def fail (fault : Fault) : Parser α :=
  fun c => .error (.malformed c.position fault)

/-- Whether the next token is the given one, which is then read. -/
def eat (lexeme : Lexeme) : Parser Bool :=
  fun c => if c.head == lexeme then .ok (true, c.next) else .ok (false, c)

def expect (lexeme : Lexeme) (what : Expected) : Parser Unit := do
  if ← eat lexeme then pure () else refuse what

def expectEnd : Parser Unit := do
  match ← peek with
  | .eof => pure ()
  | found => fail (.trailing found)

def countOperator : Parser Unit :=
  fun c =>
    if maxOperators ≤ c.operators then .error (.malformed c.position .tooManyOperators)
    else .ok ((), { c with operators := c.operators + 1 })

def left : Parser Nat :=
  fun c => .ok (c.tokens.length, c)

abbrev Choice := Cursor → Option (Operator × Bool)

/-- Goes on with a chain of operators that group to the left. Every operator counts, so that no
chain is longer than the limit, from which `fuel` is taken. -/
def chain (choice : Choice) (operand : Parser Expr) : (fuel : Nat) → Expr → Parser Expr
  | 0, e => pure e
  | fuel + 1, e => do
    match choice (← get) with
    | none => pure e
    | some (op, double) =>
      skip
      if double then skip
      countOperator
      let right ← operand
      chain choice operand fuel (.binary e op right)

def level (choice : Choice) (operand : Parser Expr) : Parser Expr := do
  let first ← operand
  chain choice operand (maxOperators + 1) first

end Parser
end RuleGraph

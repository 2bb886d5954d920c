import RuleGraph.Expr.Parser
/-!
# Writing expressions

The tokens that an expression is written with, in no more parentheses than the levels of the grammar
ask for, and how much of the limits of the parser they take up.
-/
namespace RuleGraph

/-- The levels of the grammar, each above the ones that bind tighter. -/
inductive Level where
  | conditional | coalescence | disjunction | conjunction | equality | order | membership | sum
  | product | sign | power | access | atom
  deriving DecidableEq, Repr

namespace Level

def rank : Level → Nat
  | conditional => 0
  | coalescence => 1
  | disjunction => 2
  | conjunction => 3
  | equality => 4
  | order => 5
  | membership => 6
  | sum => 7
  | product => 8
  | sign => 9
  | power => 10
  | access => 11
  | atom => 12

def tighter : Level → Level
  | conditional => coalescence
  | coalescence => disjunction
  | disjunction => conjunction
  | conjunction => equality
  | equality => order
  | order => membership
  | membership => sum
  | sum => product
  | product => sign
  | sign => power
  | power => access
  | access => atom
  | atom => atom

end Level

namespace Operator

def level : Operator → Level
  | coalesce => .coalescence
  | or => .disjunction
  | and => .conjunction
  | eq | ne => .equality
  | lt | le | gt | ge => .order
  | member | notMember => .membership
  | add | sub => .sum
  | mul | div | mod => .product
  | pow => .power

/-- The level of the operand on the left. Chains group to the left, powers to the right. -/
def leftLevel : Operator → Level
  | pow => .access
  | op => op.level

def rightLevel : Operator → Level
  | pow => .sign
  | op => op.level.tighter

def lexemes : Operator → List Lexeme
  | eq => [.equal]
  | ne => [.notEqual]
  | gt => [.greater]
  | ge => [.greaterEqual]
  | lt => [.less]
  | le => [.lessEqual]
  | add => [.plus]
  | sub => [.minus]
  | mul => [.star]
  | div => [.slash]
  | mod => [.percent]
  | pow => [.caret]
  | and => [.andWord]
  | or => [.orWord]
  | coalesce => [.questions]
  | member => [.inWord]
  | notMember => [.notWord, .inWord]

end Operator

def UnaryOperator.lexeme : UnaryOperator → Lexeme
  | .not => .notWord
  | .negate => .minus

/-- Whether a value is written as one token, perhaps with a sign. -/
def Value.isScalar : Value → Bool
  | .array _ | .object _ => false
  | _ => true

def Value.lexemes : Value → List Lexeme
  | .null => [.nullWord]
  | .bool b => [if b then .trueWord else .falseWord]
  | .number x => if Number.signBit x then [.minus, .number (-x)] else [.number x]
  | .string s => [.string s]
  | _ => []

/-- The level of a literal: a number with a sign is no atom. -/
def Value.level : Value → Level
  | .number x => if Number.signBit x then .sign else .atom
  | _ => .atom

def enclose (required own : Level) (ts : List Lexeme) : List Lexeme :=
  if own.rank < required.rank then .openParen :: ts ++ [.closeParen] else ts

def commaSeparated (parts : List (List Lexeme)) : List Lexeme :=
  [Lexeme.comma].intercalate parts

namespace Expr

def level : Expr → Level
  | .literal v => v.level
  | .binary _ op _ => op.level
  | .unary _ _ => .sign
  | .ternary _ _ _ => .conditional
  | .field _ | .index _ _ => .access
  | _ => .atom

mutual

/-- The tokens of an expression, without parentheses around all of it. -/
def lexemes : Expr → List Lexeme
  | .literal v => v.lexemes
  | .field path => [Lexeme.dot].intercalate (path.map fun name => [.identifier name])
  | .subject => [.dollar]
  | .element => [.hash]
  | .index base key =>
    enclose .access base.level base.lexemes ++ .openBracket :: key.lexemes ++ [.closeBracket]
  | .binary left op right =>
    enclose op.leftLevel left.level left.lexemes ++ op.lexemes ++
      enclose op.rightLevel right.level right.lexemes
  | .unary op operand => op.lexeme :: enclose .sign operand.level operand.lexemes
  | .call f args =>
    .identifier f.name :: .openParen :: commaSeparated (allLexemes args) ++ [.closeParen]
  | .ternary condition yes no =>
    enclose .coalescence condition.level condition.lexemes ++ .question :: yes.lexemes ++
      .colon :: no.lexemes
  | .array items => .openBracket :: commaSeparated (allLexemes items) ++ [.closeBracket]
  | .object entries => .openBrace :: commaSeparated (entriesLexemes entries) ++ [.closeBrace]
  | .interval start stop startIncluded stopIncluded =>
    (if startIncluded then .openBracket else .openParen) ::
      enclose .sum start.level start.lexemes ++ .dots :: enclose .sum stop.level stop.lexemes ++
        [if stopIncluded then .closeBracket else .closeParen]
termination_by structural e => e

def allLexemes : List Expr → List (List Lexeme)
  | [] => []
  | e :: rest => e.lexemes :: allLexemes rest
termination_by structural es => es

def entriesLexemes : List (String × Expr) → List (List Lexeme)
  | [] => []
  | (key, e) :: rest => (.string key :: .colon :: e.lexemes) :: entriesLexemes rest
termination_by structural entries => entries

end

/-- The tokens of an expression where a level is required. -/
def lexemesAt (required : Level) (e : Expr) : List Lexeme :=
  enclose required e.level e.lexemes

def isNumber : Expr → Bool
  | .literal (.number _) => true
  | _ => false

mutual

/-- Whether an expression can be written: its literals are scalars and finite, its paths are not
empty, its calls have as many arguments as their functions take, and a sign in front of a number is
part of the number. -/
def IsWritable : Expr → Prop
  | .literal v => v.isScalar ∧ v.isFinite
  | .field path => path ≠ []
  | .subject | .element => True
  | .index base key => base.IsWritable ∧ key.IsWritable
  | .binary left _ right => left.IsWritable ∧ right.IsWritable
  | .unary op operand => ¬(op = .negate ∧ operand.isNumber) ∧ operand.IsWritable
  | .call f args => f.accepts args.length ∧ AllWritable args
  | .ternary condition yes no => condition.IsWritable ∧ yes.IsWritable ∧ no.IsWritable
  | .array items => AllWritable items
  | .object entries => EntriesWritable entries
  | .interval start stop _ _ => start.IsWritable ∧ stop.IsWritable
termination_by structural e => e

def AllWritable : List Expr → Prop
  | [] => True
  | e :: rest => e.IsWritable ∧ AllWritable rest
termination_by structural es => es

def EntriesWritable : List (String × Expr) → Prop
  | [] => True
  | (_, e) :: rest => e.IsWritable ∧ EntriesWritable rest
termination_by structural entries => entries

end

def encloseNesting (required own : Level) (n : Nat) : Nat :=
  if own.rank < required.rank then n + 1 else n

mutual

/-- How deeply brackets, signs and exponents nest in the tokens of an expression. -/
def nesting : Expr → Nat
  | .literal v => if v.level = .sign then 1 else 0
  | .field _ | .subject | .element => 0
  | .index base key => max (encloseNesting .access base.level base.nesting) (key.nesting + 1)
  | .binary left op right =>
    max (encloseNesting op.leftLevel left.level left.nesting)
      (encloseNesting op.rightLevel right.level right.nesting + if op = .pow then 1 else 0)
  | .unary _ operand => encloseNesting .sign operand.level operand.nesting + 1
  | .call _ args => allNesting args
  | .ternary condition yes no =>
    max (encloseNesting .coalescence condition.level condition.nesting)
      (max (yes.nesting + 1) (no.nesting + 1))
  | .array items => allNesting items
  | .object entries => entriesNesting entries
  | .interval start stop _ _ =>
    max (encloseNesting .sum start.level start.nesting + 1)
      (encloseNesting .sum stop.level stop.nesting)
termination_by structural e => e

def allNesting : List Expr → Nat
  | [] => 0
  | e :: rest => max (e.nesting + 1) (allNesting rest)
termination_by structural es => es

def entriesNesting : List (String × Expr) → Nat
  | [] => 0
  | (_, e) :: rest => max (e.nesting + 1) (entriesNesting rest)
termination_by structural entries => entries

end

def nestingAt (required : Level) (e : Expr) : Nat :=
  encloseNesting required e.level e.nesting

mutual

/-- The number of operators between operands, powers left out. -/
def operatorCount : Expr → Nat
  | .literal _ | .field _ | .subject | .element => 0
  | .index base key => base.operatorCount + key.operatorCount
  | .binary left op right =>
    left.operatorCount + (if op = .pow then 0 else 1) + right.operatorCount
  | .unary _ operand => operand.operatorCount
  | .call _ args => allOperatorCount args
  | .ternary condition yes no =>
    condition.operatorCount + yes.operatorCount + no.operatorCount
  | .array items => allOperatorCount items
  | .object entries => entriesOperatorCount entries
  | .interval start stop _ _ => start.operatorCount + stop.operatorCount
termination_by structural e => e

def allOperatorCount : List Expr → Nat
  | [] => 0
  | e :: rest => e.operatorCount + allOperatorCount rest
termination_by structural es => es

def entriesOperatorCount : List (String × Expr) → Nat
  | [] => 0
  | (_, e) :: rest => e.operatorCount + entriesOperatorCount rest
termination_by structural entries => entries

end

end Expr
end RuleGraph

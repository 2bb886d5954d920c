import RuleGraph.Expr.Builtin
import RuleGraph.Expr.Token
/-!
# Why a text cannot be read

The causes for expressions, templates and documents, and the message of each.
-/
namespace RuleGraph

inductive Expected where
  | expression
  | ternaryColon
  | memberName
  | closeBracket
  | closeParen
  | intervalEnd
  | objectKey
  | keyColon
  | closeBrace
  | openParen
  | argumentEnd
  | comparison
  deriving DecidableEq, Repr

def Expected.text : Expected → String
  | expression => "an expression"
  | ternaryColon => "':' in ternary expression"
  | memberName => "member name after '.'"
  | closeBracket => "']'"
  | closeParen => "')'"
  | intervalEnd => "']' or ')' closing the interval"
  | objectKey => "object key"
  | keyColon => "':' after object key"
  | closeBrace => "'\x7d'"
  | openParen => "'('"
  | argumentEnd => "',' or ')' in argument list"
  | comparison => "a comparison operator"

/-- How deeply brackets, calls and operators in front of an operand may nest. -/
def maxNesting : Nat := 64

/-- How many operators between operands an expression may have. -/
def maxOperators : Nat := 512

inductive Fault where
  | halfSymbol (symbol : String)
  | unknownCharacter (c : Char)
  | invalidNumber (written : String)
  | largeNumber (written : String)
  | openEscape
  | openString
  | tooDeep
  | tooManyOperators
  | trailing (lexeme : Lexeme)
  | expected (what : Expected) (found : Lexeme)
  deriving Repr

def Fault.text : Fault → String
  | halfSymbol symbol => s!"expected '{symbol}'"
  | unknownCharacter c => "unexpected character '" ++ String.singleton c ++ "'"
  | invalidNumber written => s!"invalid number '{written}'"
  | largeNumber written => s!"number '{written}' is out of range"
  | openEscape => "unterminated escape sequence"
  | openString => "unterminated string literal"
  | tooDeep =>
    s!"expression nesting exceeds limit: depth {maxNesting + 1} (max {maxNesting})"
  | tooManyOperators => s!"expression has more than {maxOperators} operators"
  | trailing lexeme => "unexpected token " ++ lexeme.explicit
  | expected what found => "expected " ++ what.text ++ ", found " ++ found.explicit

inductive ParseError where
  | malformed (position : Nat) (fault : Fault)
  | unexpectedEnd (what : Option Expected)
  | unknownFunction (name : String)
  | invalidArity (f : Builtin) (actual : Nat)
  | unclosedSpan (position : Nat)
  | json
  | yaml
  | unknownNodeKind (node kind : String)
  | invalidContent (node : String)
  deriving Repr

def ParseError.message : ParseError → String
  | malformed position fault => s!"Syntax error at position {position}: " ++ fault.text
  | unexpectedEnd (some what) => "Unexpected end of expression: expected " ++ what.text
  | unexpectedEnd none => "Unexpected end of expression: empty expression"
  | unknownFunction name => "Unknown function: " ++ name
  | invalidArity f actual => s!"Function '{f.name}' does not accept {actual} argument(s)"
  | unclosedSpan position => s!"Unclosed template span starting at position {position}"
  | json => "JSON parsing error: the text is no document"
  | yaml => "YAML parsing error: the text is no document"
  | unknownNodeKind node kind => s!"Unknown node kind '{kind}' for node '{node}'"
  | invalidContent node =>
    s!"Invalid content for node '{node}': it does not have the shape of its kind"

end RuleGraph

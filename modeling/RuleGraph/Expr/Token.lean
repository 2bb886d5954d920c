import RuleGraph.Value.Explicit
/-!
# Tokens of expressions
-/
namespace RuleGraph

inductive Lexeme where
  | number (x : Float)
  | string (s : String)
  | identifier (name : String)
  | trueWord | falseWord | nullWord | andWord | orWord | notWord | inWord
  | dollar | hash
  | openParen | closeParen | openBracket | closeBracket | openBrace | closeBrace
  | comma | colon | dot | dots | question | questions
  | plus | minus | star | slash | percent | caret
  | equal | notEqual | less | lessEqual | greater | greaterEqual
  | andAnd | orOr | bang
  | eof
  deriving Repr, Inhabited, BEq

/-- A lexeme and the number of bytes in front of it. -/
structure Token where
  lexeme : Lexeme
  position : Nat
  deriving Repr, Inhabited

namespace Lexeme

def tag : Lexeme → String
  | number _ => "Number"
  | string _ => "String"
  | identifier _ => "Identifier"
  | trueWord => "True"
  | falseWord => "False"
  | nullWord => "Null"
  | andWord => "And"
  | orWord => "Or"
  | notWord => "Not"
  | inWord => "In"
  | dollar => "Dollar"
  | hash => "Hash"
  | openParen => "LParen"
  | closeParen => "RParen"
  | openBracket => "LBracket"
  | closeBracket => "RBracket"
  | openBrace => "LBrace"
  | closeBrace => "RBrace"
  | comma => "Comma"
  | colon => "Colon"
  | dot => "Dot"
  | dots => "DotDot"
  | question => "Question"
  | questions => "QuestionQuestion"
  | plus => "Plus"
  | minus => "Minus"
  | star => "Star"
  | slash => "Slash"
  | percent => "Percent"
  | caret => "Caret"
  | equal => "EqEq"
  | notEqual => "NotEq"
  | less => "Lt"
  | lessEqual => "Le"
  | greater => "Gt"
  | greaterEqual => "Ge"
  | andAnd => "AndAnd"
  | orOr => "OrOr"
  | bang => "Bang"
  | eof => "Eof"

def explicit : Lexeme → String
  | number x => "Number(" ++ Value.explicitNumber x ++ ")"
  | string s => "String(" ++ Text.quoted s ++ ")"
  | identifier name => "Identifier(" ++ Text.quoted name ++ ")"
  | lexeme => lexeme.tag

def payload : Lexeme → Option Value
  | number x => some (.number x)
  | string s | identifier s => some (.string s)
  | _ => none

def ofName (name : String) : Lexeme :=
  match name with
  | "true" => trueWord
  | "false" => falseWord
  | "null" => nullWord
  | "and" => andWord
  | "or" => orWord
  | "not" => notWord
  | "in" => inWord
  | _ => identifier name

def isComparison : Lexeme → Bool
  | equal | notEqual | less | lessEqual | greater | greaterEqual => true
  | _ => false

end Lexeme
end RuleGraph

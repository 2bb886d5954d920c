import RuleGraph.Number.Reading
import RuleGraph.ParseError
import RuleGraph.Text.Blank
import RuleGraph.Text.Letter
import RuleGraph.Text.Pieces
/-!
# Reading tokens

A token is as long as it can be. Blanks stand between tokens, and the token `eof` at the end.
-/
namespace RuleGraph.Lexer
open Text

def startsWithDigit (cs : List Char) : Bool :=
  match cs with
  | [] => false
  | c :: _ => c.isDigit

/-- The digits and underscores in front, with each point that a digit follows. -/
def digitsLength : List Char → Nat
  | [] => 0
  | c :: cs =>
    if c.isDigit || c == '_' || (c == '.' && startsWithDigit cs) then digitsLength cs + 1 else 0

def exponentLength (cs : List Char) : Nat :=
  match cs with
  | [] => 0
  | c :: rest =>
    if c == 'e' || c == 'E' then
      let sign := match rest with
        | '+' :: _ | '-' :: _ => 1
        | _ => 0
      let digits := ((rest.drop sign).takeWhile Char.isDigit).length
      if digits = 0 then 0 else 1 + sign + digits
    else 0

def numberLength (cs : List Char) : Nat :=
  let n := digitsLength cs
  n + exponentLength (cs.drop n)

def number (written : List Char) : Except Fault Lexeme :=
  let digits := written.filter (· != '_')
  match Number.read digits with
  | some x => if x.isFinite then .ok (.number x) else .error (.largeNumber (String.ofList digits))
  | none => .error (.invalidNumber (String.ofList digits))

/-- The character that stands for itself behind a backslash, and for a control in three cases. -/
def escaped (c : Char) : Char :=
  match c with
  | 'n' => '\n'
  | 't' => '\t'
  | 'r' => '\r'
  | c => c

inductive StringBody where
  | closed (value : List Char) (length : Nat)
  | openString
  | openEscape

def StringBody.push (c : Char) (length : Nat) : StringBody → StringBody
  | closed value n => closed (c :: value) (n + length)
  | body => body

def stringBody (quote : Char) : List Char → StringBody
  | [] => .openString
  | '\\' :: [] => .openEscape
  | '\\' :: c :: cs => (stringBody quote cs).push (escaped c) 2
  | c :: cs => if c == quote then .closed [] 1 else (stringBody quote cs).push c 1

def isNameChar (c : Char) : Bool :=
  isLetterOrNumeral c || c == '_'

def symbol (c : Char) (next : Option Char) : Except Fault (Lexeme × Nat) :=
  match c, next with
  | '.', some '.' => .ok (.dots, 1)
  | '?', some '?' => .ok (.questions, 1)
  | '=', some '=' => .ok (.equal, 1)
  | '!', some '=' => .ok (.notEqual, 1)
  | '<', some '=' => .ok (.lessEqual, 1)
  | '>', some '=' => .ok (.greaterEqual, 1)
  | '&', some '&' => .ok (.andAnd, 1)
  | '|', some '|' => .ok (.orOr, 1)
  | '.', _ => .ok (.dot, 0)
  | '?', _ => .ok (.question, 0)
  | '!', _ => .ok (.bang, 0)
  | '<', _ => .ok (.less, 0)
  | '>', _ => .ok (.greater, 0)
  | '=', _ => .error (.halfSymbol "==")
  | '&', _ => .error (.halfSymbol "&&")
  | '|', _ => .error (.halfSymbol "||")
  | '$', _ => .ok (.dollar, 0)
  | '#', _ => .ok (.hash, 0)
  | '(', _ => .ok (.openParen, 0)
  | ')', _ => .ok (.closeParen, 0)
  | '[', _ => .ok (.openBracket, 0)
  | ']', _ => .ok (.closeBracket, 0)
  | '\x7b', _ => .ok (.openBrace, 0)
  | '\x7d', _ => .ok (.closeBrace, 0)
  | ',', _ => .ok (.comma, 0)
  | ':', _ => .ok (.colon, 0)
  | '+', _ => .ok (.plus, 0)
  | '-', _ => .ok (.minus, 0)
  | '*', _ => .ok (.star, 0)
  | '/', _ => .ok (.slash, 0)
  | '%', _ => .ok (.percent, 0)
  | '^', _ => .ok (.caret, 0)
  | c, _ => .error (.unknownCharacter c)

/-- The lexeme that begins with `c`, and its number of characters after `c`. -/
def lexeme (position : Nat) (c : Char) (cs : List Char) : Except ParseError (Lexeme × Nat) :=
  if c.isDigit then
    let n := numberLength cs
    match number (c :: cs.take n) with
    | .ok found => .ok (found, n)
    | .error fault => .error (.malformed position fault)
  else if c == '\'' || c == '"' then
    match stringBody c cs with
    | .closed value n => .ok (.string (String.ofList value), n)
    | .openString => .error (.malformed position .openString)
    | .openEscape => .error (.malformed (position + byteCount (c :: cs) - 1) .openEscape)
  else if isLetter c || c == '_' then
    let rest := cs.takeWhile isNameChar
    .ok (.ofName (String.ofList (c :: rest)), rest.length)
  else
    match symbol c cs.head? with
    | .ok found => .ok found
    | .error fault => .error (.malformed position fault)

def tokensFrom (position : Nat) (cs : List Char) : Except ParseError (List Token) :=
  match cs with
  | [] => .ok [⟨.eof, position⟩]
  | c :: cs =>
    if isBlank c then tokensFrom (position + c.utf8Size) cs
    else
      match lexeme position c cs with
      | .error e => .error e
      | .ok (found, n) =>
        match tokensFrom (position + byteCount (c :: cs.take n)) (cs.drop n) with
        | .error e => .error e
        | .ok tokens => .ok (⟨found, position⟩ :: tokens)
termination_by cs.length
decreasing_by
  · simp
  · simp only [List.length_drop, List.length_cons]; omega

def tokens (source : String) : Except ParseError (List Token) :=
  tokensFrom 0 source.toList

end RuleGraph.Lexer

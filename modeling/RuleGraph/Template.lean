import RuleGraph.Expr.Eval
import RuleGraph.Expr.Parser
/-!
# Templates

A template is a text with spans, expressions between double braces. A span ends at the first double
brace outside of quoted strings.
-/
namespace RuleGraph

inductive Segment where
  | text (s : String)
  | span (e : Expr)
  deriving Repr

def Segment.isBlank : Segment → Bool
  | text s => Text.allBlank s
  | span _ => false

abbrev Template := List Segment

namespace Template

def opening : List Char :=
  ['\x7b', '\x7b']

def hasSpans (source : String) : Bool :=
  Text.occursIn opening source.toList

/-- The length of the body of a span. Inside quotes a backslash takes the next character with it. -/
def bodyLength : (quote : Option Char) → List Char → Option Nat
  | _, [] => none
  | none, '\x7d' :: '\x7d' :: _ => some 0
  | none, c :: cs =>
    (bodyLength (if c == '\'' || c == '"' then some c else none) cs).map (· + 1)
  | some _, ['\\'] => none
  | some q, '\\' :: _ :: cs => (bodyLength (some q) cs).map (· + 2)
  | some q, c :: cs => (bodyLength (if c == q then none else some q) cs).map (· + 1)

def textLength : List Char → Option Nat
  | [] => none
  | c :: cs => if opening.isPrefixOf (c :: cs) then some 0 else (textLength cs).map (· + 1)

def textSegment (cs : List Char) : List Segment :=
  if cs.isEmpty then [] else [.text (String.ofList cs)]

def segmentsFrom (position : Nat) (cs : List Char) : Except ParseError (List Segment) :=
  match _h : textLength cs with
  | none => .ok (textSegment cs)
  | some n =>
    let start := position + Text.byteCount (cs.take n)
    let inside := cs.drop (n + 2)
    match bodyLength none inside with
    | none => .error (.unclosedSpan start)
    | some k => do
      let e ← Expr.parse (String.ofList (inside.take k))
      let rest ← segmentsFrom (start + Text.byteCount (inside.take k) + 4) (inside.drop (k + 2))
      return textSegment (cs.take n) ++ .span e :: rest
termination_by cs.length
decreasing_by
  cases cs with
  | nil => simp [textLength] at _h
  | cons c cs => simp only [List.length_drop, List.length_cons]; omega

def parse (source : String) : Except ParseError Template :=
  segmentsFrom 0 source.toList

/-- The expression of a template that has one span and nothing but blanks around it. -/
def single : Template → Option Expr
  | [] => none
  | .text s :: rest => if Text.allBlank s then single rest else none
  | .span e :: rest => if rest.all Segment.isBlank then some e else none

def renderText (s : Scope) : Template → Except EvalError String
  | [] => .ok ""
  | .text t :: rest => do return t ++ (← renderText s rest)
  | .span e :: rest => do
    let v ← e.eval s
    return v.text ++ (← renderText s rest)

/-- The value of a template: that of its expression if it is a single span, and else a text. -/
def render (template : Template) (s : Scope) : Except EvalError Value :=
  match template.single with
  | some e => e.eval s
  | none => do return .string (← template.renderText s)

end Template
end RuleGraph

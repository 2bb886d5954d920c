import RuleGraph.Proofs.Parsing.Rendering
/-!
# The grammar

Which tokens stand for an expression, on a level of the grammar and with so many levels of nesting.
Nothing is said about how the tokens are read, only what they may be read as.
-/
namespace RuleGraph

def Operator.spellings : Operator → List (List Lexeme)
  | .and => [[.andWord], [.andAnd]]
  | .or => [[.orWord], [.orOr]]
  | op => [op.lexemes]

def Lexeme.keyOf? : Lexeme → Option String
  | .identifier key | .string key => some key
  | _ => none

/-- What tokens stand for. -/
inductive Phrase where
  | expression (L : Level) (e : Expr)
  /-- Expressions with commas between them. -/
  | items (es : List Expr)
  /-- Keys and expressions with commas between them. -/
  | entries (entries : List (String × Expr))

open Phrase RuleGraph.Parser in
/-- The tokens stand for a phrase in which brackets, signs, exponents and the branches of
conditionals nest at most so deep. The end of an interval does not count as nested. -/
inductive Derives : (depth : Nat) → List Lexeme → Phrase → Prop
  | tighter {d ts e} (L : Level) (h : Derives d ts (expression L.tighter e)) :
    Derives d ts (expression L e)
  | atom {d t e} (h : atom? t = some e) : Derives d [t] (expression .atom e)
  | name {d} (name : String) : Derives d [.identifier name] (expression .atom (.field [name]))
  | parentheses {d ts e} (h : Derives d ts (expression .conditional e)) :
    Derives (d + 1) (.openParen :: ts ++ [.closeParen]) (expression .atom e)
  | interval {d ts tt start stop} (startIncluded stopIncluded : Bool)
    (hstart : Derives d ts (expression .conditional start))
    (hstop : Derives (d + 1) tt (expression .sum stop)) :
    Derives (d + 1) ((if startIncluded then .openBracket else .openParen) :: ts ++ .dots :: tt ++
        [if stopIncluded then .closeBracket else .closeParen])
      (expression .atom (.interval start stop startIncluded stopIncluded))
  | emptyArray {d} : Derives d [.openBracket, .closeBracket] (expression .atom (.array []))
  | array {d ts es} (h : Derives d ts (items es)) :
    Derives (d + 1) (.openBracket :: ts ++ [.closeBracket]) (expression .atom (.array es))
  | arrayComma {d ts es} (h : Derives d ts (items es)) :
    Derives (d + 1) (.openBracket :: (ts ++ [.comma]) ++ [.closeBracket])
      (expression .atom (.array es))
  | emptyObject {d} : Derives d [.openBrace, .closeBrace] (expression .atom (.object []))
  | object {d ts es} (h : Derives d ts (entries es)) :
    Derives (d + 1) (.openBrace :: ts ++ [.closeBrace]) (expression .atom (.object es))
  | objectComma {d ts es} (h : Derives d ts (entries es)) :
    Derives (d + 1) (.openBrace :: (ts ++ [.comma]) ++ [.closeBrace])
      (expression .atom (.object es))
  | emptyCall {d name f} (hname : Builtin.ofName? name = some f) (hcount : f.accepts 0) :
    Derives d [.identifier name, .openParen, .closeParen] (expression .atom (.call f []))
  | call {d ts name f args} (hname : Builtin.ofName? name = some f)
    (hcount : f.accepts args.length) (h : Derives d ts (items args)) :
    Derives (d + 1) (.identifier name :: (.openParen :: ts ++ [.closeParen]))
      (expression .atom (.call f args))
  | member {d ts e} (name : String) (h : Derives d ts (expression .access e)) :
    Derives d (ts ++ [.dot, .identifier name]) (expression .access (memberOf e name))
  | index {d tb tk base key} (hbase : Derives (d + 1) tb (expression .access base))
    (hkey : Derives d tk (expression .conditional key)) :
    Derives (d + 1) (tb ++ (.openBracket :: tk ++ [.closeBracket]))
      (expression .access (.index base key))
  | power {d tb te base exponent} (hbase : Derives (d + 1) tb (expression .access base))
    (hexponent : Derives d te (expression .sign exponent)) :
    Derives (d + 1) (tb ++ .caret :: te) (expression .power (.binary base .pow exponent))
  | not {d t ts e} (ht : t = .notWord ∨ t = .bang) (h : Derives d ts (expression .sign e)) :
    Derives (d + 1) (t :: ts) (expression .sign (.unary .not e))
  | negate {d ts e} (h : Derives d ts (expression .sign e)) :
    Derives (d + 1) (.minus :: ts) (expression .sign (negated e))
  | binary {d tl tm tr left op right} (hop : op ≠ .pow) (htm : tm ∈ op.spellings)
    (hleft : Derives d tl (expression op.level left))
    (hright : Derives d tr (expression op.level.tighter right)) :
    Derives d (tl ++ (tm ++ tr)) (expression op.level (.binary left op right))
  | ternary {d tc ty tn condition yes no}
    (hcondition : Derives (d + 1) tc (expression .coalescence condition))
    (hyes : Derives d ty (expression .conditional yes))
    (hno : Derives d tn (expression .conditional no)) :
    Derives (d + 1) (tc ++ .question :: (ty ++ .colon :: tn))
      (expression .conditional (.ternary condition yes no))
  | item {d ts e} (h : Derives d ts (expression .conditional e)) : Derives d ts (items [e])
  | moreItems {d ts te es e} (hs : Derives d ts (items es))
    (h : Derives d te (expression .conditional e)) :
    Derives d (ts ++ .comma :: te) (items (es ++ [e]))
  | entry {d t te key e} (hkey : t.keyOf? = some key)
    (h : Derives d te (expression .conditional e)) :
    Derives d (t :: .colon :: te) (entries [(key, e)])
  | moreEntries {d ts t te es key e} (hs : Derives d ts (entries es)) (hkey : t.keyOf? = some key)
    (h : Derives d te (expression .conditional e)) :
    Derives d (ts ++ .comma :: t :: .colon :: te) (entries (es ++ [(key, e)]))

/-- The tokens stand for comparisons of `$` with `and` and `or` between them. -/
inductive DerivesComparisons : List Lexeme → Expr → Prop
  | comparison {t ts op e} (ht : op.isComparison ∧ [t] = op.lexemes)
    (h : Derives maxNesting ts (.expression .sum e)) :
    DerivesComparisons (t :: ts) (.binary .subject op e)
  | connected {tl tm tr left op right} (hop : op = .and ∨ op = .or) (htm : tm ∈ op.spellings)
    (hleft : DerivesComparisons tl left) (hright : DerivesComparisons tr right) :
    DerivesComparisons (tl ++ (tm ++ tr)) (.binary left op right)

/-- The tokens stand for the test of a cell. -/
inductive DerivesCell : List Lexeme → Expr → Prop
  | comparisons {ts e} (h : DerivesComparisons ts e) : DerivesCell ts e
  | membership {ts op e} (hop : op.isMembership) (h : Derives maxNesting ts (.expression .sum e)) :
    DerivesCell (op.lexemes ++ ts) (.binary .subject op e)
  | expression {d ts e} (hd : maxNesting = d + 1)
    (h : Derives d ts (.expression .conditional e)) : DerivesCell ts (Parser.testOf e)
  | alternatives {tl tr left right} (hleft : DerivesCell tl left) (hright : DerivesCell tr right) :
    DerivesCell (tl ++ .comma :: tr) (.binary left .or right)

end RuleGraph

/-!
# Parts of a text

Search for a part of a text, and the pieces between the occurrences of a separator. Occurrences are
found from the left and do not overlap.
-/
namespace RuleGraph.Text

def occursIn (part : List Char) : List Char → Bool
  | [] => part.isEmpty
  | c :: cs => part.isPrefixOf (c :: cs) || occursIn part cs

/-- The pieces of a text at a separator that is not empty. The first piece begins with `piece`,
reversed, and the next `skip` characters belong to a separator. -/
def piecesFrom (sep : List Char) (piece : List Char) : (skip : Nat) → List Char → List (List Char)
  | _, [] => [piece.reverse]
  | k + 1, _ :: cs => piecesFrom sep piece k cs
  | 0, c :: cs =>
    if sep.isPrefixOf (c :: cs) then piece.reverse :: piecesFrom sep [] (sep.length - 1) cs
    else piecesFrom sep (c :: piece) 0 cs

/-- The pieces of a text at a separator. The empty separator stands between any two characters and
at both ends. -/
def pieces (sep cs : List Char) : List (List Char) :=
  if sep.isEmpty then [] :: (cs.map fun c => [c]) ++ [[]] else piecesFrom sep [] 0 cs

def contains (s part : String) : Bool :=
  occursIn part.toList s.toList

def startsWith (s part : String) : Bool :=
  part.toList.isPrefixOf s.toList

def endsWith (s part : String) : Bool :=
  part.toList.isSuffixOf s.toList

def split (s sep : String) : List String :=
  (pieces sep.toList s.toList).map String.ofList

def dotted (path : String) : List String :=
  split path "."

def byteCount (cs : List Char) : Nat :=
  cs.foldr (fun c n => c.utf8Size + n) 0

end RuleGraph.Text

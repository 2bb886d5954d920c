import RuleGraph.Text.Pieces
/-!
# Absolute paths

A path is the list of its names from the root of all paths, without dots. A written path is assumed
to be made absolute by its names alone: links are not looked at.
-/
namespace RuleGraph

abbrev Path := List String

namespace Path

/-- The parts of a written path between slashes. Empty ones and single dots say nothing. -/
def parts (written : String) : List String :=
  (Text.split written "/").filter fun part =>
    part != "" && part != "."

def isAbsolute (written : String) : Bool :=
  written.toList.head? == some '/'

/-- Follows a part; two dots lead one level up, if there is one. -/
def follow (p : Path) (part : String) : Path :=
  if part = ".." then p.dropLast else p ++ [part]

def followAll (p : Path) (written : String) : Path :=
  (parts written).foldl follow p

def ofAbsolute (written : String) : Path :=
  followAll [] written

def text (p : Path) : String :=
  "/" ++ "/".intercalate p

/-- What follows the last point of the last name, if something is in front of it. -/
def extension? (written : String) : Option String :=
  match (parts written).getLast? with
  | none | some ".." => none
  | some name =>
    let reversed := name.toList.reverse
    match reversed.dropWhile (· != '.') with
    | '.' :: _ :: _ => some (String.ofList (reversed.takeWhile (· != '.')).reverse)
    | _ => none

end Path
end RuleGraph

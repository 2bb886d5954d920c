import RuleGraph.Engine.Path
import RuleGraph.Run.Error
/-!
# Loaders

A loader finds the documents that keys stand for, in a store or below a folder.
-/
namespace RuleGraph

abbrev Loader := String → Except Failure (List UInt8)

structure Store where
  documents : List (String × List UInt8)

namespace Store

def empty : Store :=
  ⟨[]⟩

def insert (s : Store) (key : String) (document : List UInt8) : Store :=
  ⟨Members.insert key document s.documents⟩

def size (s : Store) : Nat :=
  s.documents.length

def isEmpty (s : Store) : Bool :=
  s.documents.isEmpty

def load (s : Store) : Loader := fun key =>
  match Members.get? key s.documents with
  | some document => .ok document
  | none => .error [s!"decision '{key}' not found"]

end Store

/-- A folder with documents; their keys are paths below it. -/
structure Folder where
  root : Path
  deriving DecidableEq, Repr

namespace Folder

def at? (isFolder : String → Bool) (written : String) : Except Failure Folder :=
  if isFolder written then .ok ⟨.ofAbsolute written⟩
  else .error [s!"decision root '{written}' is not a directory"]

/-- The path of a key, which may not lead out of the folder. -/
def resolve (f : Folder) (key : String) : Except Failure Path :=
  if Path.isAbsolute key then .error [s!"decision key '{key}' must be relative"]
  else
    let path := Path.followAll f.root key
    if f.root.isPrefixOf path then .ok path
    else .error [s!"decision key '{key}' escapes the loader root"]

def load (f : Folder) (read : Path → Except String (List UInt8)) : Loader := fun key => do
  let path ← f.resolve key
  match read path with
  | .ok document => return document
  | .error fault => throw ["failed to read '" ++ path.text ++ "'", fault]

end Folder
end RuleGraph

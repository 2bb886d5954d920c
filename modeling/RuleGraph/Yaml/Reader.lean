import RuleGraph.Form
import RuleGraph.Yaml.Plain
/-!
# Typed values of a document

Trees of a document as a form. Aliases are followed where they are met, a limited number of times in
all, and what nobody asks for is not followed. All YAML is assumed to be read in this way.
-/
namespace RuleGraph.Yaml

def depthLimit : Nat := 128

structure Nested where
  depth : Nat
  node : Node

/-- The aliases that may still be followed. -/
abbrev Follow := StateT Nat Option

def follow (anchored : List (Nat × Node)) (node : Node) : Follow Node := do
  match node with
  | .alias number =>
    match ← get with
    | 0 => failure
    | k + 1 =>
      set k
      match anchored.lookup number with
      | some target => return target
      | none => failure
  | _ => return node

def textOfNode (anchored : List (Nat × Node)) (node : Node) : Follow String := do
  match ← follow anchored node with
  | .scalar _ _ s => return s
  | _ => failure

/-- The tree of a node. Of equal keys the last counts, and a key is a text whatever it looks
like. -/
def tree (anchored : List (Nat × Node)) : (depth : Nat) → Node → Follow Json
  | depth, node => do
    match ← follow anchored node, depth with
    | .scalar tag style s, _ =>
      match scalarValue tag style s with
      | some j => return j
      | none => failure
    | .sequence tag items, depth + 1 =>
      if isLocalTag tag then failure
      return .array (← items.mapM (tree anchored depth))
    | .mapping tag pairs, depth + 1 =>
      if isLocalTag tag then failure
      let members ← pairs.mapM fun (key, value) => do
        let name ← textOfNode anchored key
        let j ← tree anchored depth value
        return (name, j)
      return .record members
    | _, _ => failure

def isLiteral (name : String) (tag : Option Tag) (style : Style) : Bool :=
  style == .plain || (style == .literal && tag == some (coreTag name))

def form (anchored : List (Nat × Node)) : Form Follow Nested where
  text n := textOfNode anchored n.node
  switch n := do
    match ← follow anchored n.node with
    | .scalar tag style s =>
      if isLiteral "bool" tag style then Form.ofOption (switch? s) else failure
    | _ => failure
  byte n := do
    match ← follow anchored n.node with
    | .scalar tag style s =>
      if isLiteral "int" tag style then
        match int? s with
        | some k => if 0 ≤ k ∧ k < 256 ∧ s.toList.head? ≠ some '-' then return k.toNat else failure
        | none => failure
      else failure
    | _ => failure
  list n := do
    match ← follow anchored n.node, n.depth with
    | .sequence _ items, depth + 1 => return items.map (⟨depth, ·⟩)
    | .scalar _ .plain "", _ => return []
    | _, _ => failure
  record fields n := do
    match ← follow anchored n.node, n.depth with
    | .mapping _ pairs, depth + 1 =>
      let members ← pairs.mapM fun (key, value) => do
        return (← textOfNode anchored key, Nested.mk depth value)
      Form.ofOption (Form.select fields members)
    | .scalar _ .plain "", _ => return []
    | _, _ => failure
  tree n := return (← tree anchored n.depth n.node).finite

def decodeText {β : Type} (decode : Form Follow Nested → Nested → Follow β) (bytes : List UInt8) :
    Option β := do
  let document ← Document.read bytes
  let (found, _) ← decode (form document.anchored) ⟨depthLimit, document.root⟩ document.jumps
  some found

/-- The tree of the only document of a text; decimals need not be finite. -/
def read (bytes : List UInt8) : Option Json := do
  let document ← Document.read bytes
  let (found, _) ← tree document.anchored depthLimit document.root document.jumps
  some found

end RuleGraph.Yaml

import RuleGraph.Json.Reader
/-!
# Typed values from trees

A `Form` says how texts, switches, lists and records are taken out of the trees of one notation, so
that each typed value is decoded once for all notations. A tree that does not have the wanted type
gives nothing.
-/
namespace RuleGraph

/-- A field of a record: its name and the other spellings that stand for it. -/
structure Field where
  name : String
  others : List String

def Field.named (name : String) : Field :=
  ⟨name, []⟩

def Field.isSpelled (field : Field) (key : String) : Bool :=
  field.name == key || field.others.contains key

structure Form (m : Type → Type) (α : Type) where
  text : α → m String
  switch : α → m Bool
  byte : α → m Nat
  list : α → m (List α)
  /-- The fields that are present, by name. No field may come twice, and what is no field is left
  out. -/
  record : List Field → α → m (List (String × α))
  tree : α → m Json

namespace Form
variable {m : Type → Type} [Monad m] [MonadLiftT Option m] {α β : Type}

def ofOption (b : Option β) : m β :=
  liftM b

def select (fields : List Field) : List (String × α) → Option (List (String × α))
  | [] => some []
  | (key, a) :: rest => do
    let selected ← select fields rest
    match fields.find? (·.isSpelled key) with
    | none => some selected
    | some field =>
      if (selected.lookup field.name).isSome then none else some ((field.name, a) :: selected)

def positional (fields : List Field) (items : List α) : Option (List (String × α)) :=
  if items.length ≤ fields.length then some ((fields.map (·.name)).zip items) else none

def orDefault (decode : α → m β) (fallback : β) (members : List (String × α)) (name : String) :
    m β :=
  match members.lookup name with
  | none => pure fallback
  | some a => decode a

def required (decode : α → m β) (members : List (String × α)) (name : String) : m β := do
  decode (← ofOption (members.lookup name))

def listOf (form : Form m α) (decode : α → m β) (a : α) : m (List β) := do
  (← form.list a).mapM decode

end Form

namespace Json

def natBelow (bound : Nat) : Json → Option Nat
  | .integer n => if 0 ≤ n ∧ n.toNat < bound then some n.toNat else none
  | _ => none

def string? : Json → Option String
  | .string s => some s
  | _ => none

def bool? : Json → Option Bool
  | .bool b => some b
  | _ => none

def array? : Json → Option (List Json)
  | .array items => some items
  | _ => none

/-- Trees as the form: a record is an object or a list of its fields. -/
def form : Form Option Json where
  text := string?
  switch := bool?
  byte := natBelow 256
  list := array?
  record fields
    | .object members => Form.select fields members
    | .array items => Form.positional fields items
    | _ => none
  tree := some

structure Nested where
  depth : Nat
  written : Written

def Nested.descend (n : Nested) (children : List Written) : Option (List Nested) :=
  if n.depth ≤ 1 then none else some (children.map (⟨n.depth - 1, ·⟩))

/-- Written trees as the form. What is no field is never interpreted, its name apart. -/
def writtenForm : Form Option Nested where
  text n :=
    match n.written with
    | .string written => stringOf written
    | _ => none
  switch n :=
    match n.written with
    | .bool b => some b
    | _ => none
  byte n := (n.written.toJson n.depth).bind (natBelow 256)
  list n :=
    match n.written with
    | .array items => n.descend items
    | _ => none
  record fields n :=
    match n.written with
    | .object members => do
      let names ← members.mapM fun (name, _) => stringOf name
      Form.select fields (names.zip (← n.descend (members.map Prod.snd)))
    | .array items => do Form.positional fields (← n.descend items)
    | _ => none
  tree n := n.written.toJson n.depth

def decodeText {β : Type} (decode : Form Option Nested → Nested → Option β) (bytes : Bytes) :
    Option β :=
  (Written.read bytes).bind fun w => decode writtenForm ⟨depthLimit, w⟩

end Json
end RuleGraph

import RuleGraph.Json.Token
/-!
# JSON text as it was written

A text is well formed if its tokens nest properly. They are read from left to right with a stack of
the arrays and objects that are still open. Numbers and strings keep their bytes, so that those
which nobody asks for are never interpreted.
-/
namespace RuleGraph.Json

inductive Written where
  | null
  | bool (b : Bool)
  | number (written : Bytes)
  | string (written : Bytes)
  | array (items : List Written)
  | object (members : List (Bytes × Written))
  deriving Inhabited

/-- An array or object that is still open, with what it holds so far in reverse. -/
inductive Frame where
  | array (items : List Written)
  | object (members : List (Bytes × Written)) (name : Bytes)

inductive Expected where
  | value
  | firstItem
  | firstName
  | name
  | colon
  | separator

structure Reading where
  expected : Expected
  frames : List Frame
  result : Option Written

def Reading.start : Reading :=
  ⟨.value, [], none⟩

def Reading.put (r : Reading) (w : Written) : Reading :=
  match r.frames with
  | [] => ⟨.separator, [], some w⟩
  | .array items :: frames => ⟨.separator, .array (w :: items) :: frames, none⟩
  | .object members name :: frames =>
    ⟨.separator, .object ((name, w) :: members) name :: frames, none⟩

def Reading.value (r : Reading) : Token → Option Reading
  | .openArray => some ⟨.firstItem, .array [] :: r.frames, none⟩
  | .openObject => some ⟨.firstName, .object [] [] :: r.frames, none⟩
  | .null => some (r.put .null)
  | .bool b => some (r.put (.bool b))
  | .number written => some (r.put (.number written))
  | .string written => some (r.put (.string written))
  | _ => none

def Reading.name (r : Reading) : Token → Option Reading
  | .string written =>
    match r.frames with
    | .object members _ :: frames => some ⟨.colon, .object members written :: frames, none⟩
    | _ => none
  | _ => none

def Reading.close (r : Reading) (token : Token) : Option Reading :=
  match token, r.frames with
  | .closeArray, .array items :: frames =>
    some (Reading.put ⟨r.expected, frames, none⟩ (.array items.reverse))
  | .closeObject, .object members _ :: frames =>
    some (Reading.put ⟨r.expected, frames, none⟩ (.object members.reverse))
  | _, _ => none

def Reading.step (r : Reading) (token : Token) : Option Reading :=
  match r.expected with
  | .value => r.value token
  | .firstItem => (r.close token).or (r.value token)
  | .firstName => (r.close token).or (r.name token)
  | .name => r.name token
  | .colon =>
    match token with
    | .colon => some ⟨.value, r.frames, none⟩
    | _ => none
  | .separator =>
    match token, r.frames with
    | .comma, .array _ :: _ => some ⟨.value, r.frames, none⟩
    | .comma, .object _ _ :: _ => some ⟨.name, r.frames, none⟩
    | _, _ => r.close token

def Written.read (bytes : Bytes) : Option Written := do
  let r ← (← tokens bytes).foldlM Reading.step Reading.start
  r.result

end RuleGraph.Json

import RuleGraph.Document.Content
import RuleGraph.ParseError
import RuleGraph.Yaml.Reader
/-!
# Reading documents

A document is JSON if its first character that is no blank is an opening brace, and else YAML.
-/
namespace RuleGraph

inductive Format where
  | json
  | yaml
  deriving DecidableEq, Repr

def Format.tag : Format → String
  | json => "Json"
  | yaml => "Yaml"

/-- The blanks of ASCII, the vertical tab apart. -/
def isAsciiBlank (b : UInt8) : Bool :=
  b == 0x20 || b == 0x09 || b == 0x0A || b == 0x0C || b == 0x0D

def Format.detect (bytes : List UInt8) : Format :=
  match bytes.dropWhile isAsciiBlank with
  | 0x7B :: _ => .json
  | _ => .yaml

structure RawNode where
  id : String
  name : String
  kind : String
  content : Json

structure RawDocument where
  nodes : List RawNode
  edges : List Edge

section
variable {m : Type → Type} [Monad m] [MonadLiftT Option m] {α : Type} (form : Form m α)
open Form

def RawNode.decode (a : α) : m RawNode := do
  let fields ← form.record (["id", "name", "type", "content"].map .named) a
  return {
    id := ← required form.text fields "id"
    name := ← orDefault form.text "" fields "name"
    kind := ← required form.text fields "type"
    content := ← orDefault form.tree .null fields "content" }

def Edge.decode (a : α) : m Edge := do
  let fields ← form.record (["id", "sourceId", "targetId"].map .named) a
  return {
    id := ← orDefault form.text "" fields "id"
    source := ← required form.text fields "sourceId"
    target := ← required form.text fields "targetId" }

def RawDocument.decode (a : α) : m RawDocument := do
  let fields ← form.record (["nodes", "edges"].map .named) a
  return {
    nodes := ← orDefault (listOf form (RawNode.decode form)) [] fields "nodes"
    edges := ← orDefault (listOf form (Edge.decode form)) [] fields "edges" }

end

def Node.ofRaw (raw : RawNode) : Except ParseError Node :=
  match NodeKind.ofTag? raw.kind with
  | none => .error (.unknownNodeKind raw.id raw.kind)
  | some kind =>
    match Content.ofJson? kind raw.content with
    | none => .error (.invalidContent raw.id)
    | some content => .ok ⟨raw.id, raw.name, content⟩

def Document.ofRaw (raw : RawDocument) : Except ParseError Document := do
  return ⟨← raw.nodes.mapM Node.ofRaw, raw.edges⟩

def Document.parseAs (format : Format) (bytes : List UInt8) : Except ParseError Document :=
  match format with
  | .json =>
    match Json.decodeText RawDocument.decode bytes with
    | some raw => Document.ofRaw raw
    | none => .error .json
  | .yaml =>
    match Yaml.decodeText RawDocument.decode bytes with
    | some raw => Document.ofRaw raw
    | none => .error .yaml

def Document.parse (bytes : List UInt8) : Except ParseError Document :=
  Document.parseAs (.detect bytes) bytes

end RuleGraph

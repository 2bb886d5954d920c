import RuleGraph.Proofs.Expr.Stored
import Mathlib.Data.List.Forall2
/-!
# Decisions that are read back from JSON

Every compiled decision whose literals are finite is read back from its tree as an equal one. Its
positions and counts are those of a machine, below `2 ^ 64`.
-/
namespace RuleGraph

/-! ## Equality

Decisions are equal part by part. What is no expression is the same. -/

abbrev CellEqual : Option Expr → Option Expr → Prop :=
  Option.Rel (·.equal ·)

structure TableInput.Equal (c c' : TableInput) : Prop where
  id : c.id = c'.id
  name : c.name = c'.name
  field : CellEqual c.field c'.field

structure Row.Equal (r r' : Row) : Prop where
  index : r.index = r'.index
  id : r.id = r'.id
  isDefault : r.isDefault = r'.isDefault
  conditions : List.Forall₂ CellEqual r.conditions r'.conditions
  outputs : List.Forall₂ CellEqual r.outputs r'.outputs

structure Table.Equal (t t' : Table) : Prop where
  policy : t.policy = t'.policy
  inputs : List.Forall₂ TableInput.Equal t.inputs t'.inputs
  outputs : t.outputs = t'.outputs
  rows : List.Forall₂ Row.Equal t.rows t'.rows
  passThrough : t.passThrough = t'.passThrough

inductive Program.Equal : Program → Program → Prop
  | input (schema : Option (List String)) : Equal (.input schema) (.input schema)
  | output : Equal .output .output
  | table {t t' : Table} (h : t.Equal t') : Equal (.table t) (.table t')
  | expressions {entries entries' : List (List String × Expr)}
    (h : List.Forall₂ (fun entry entry' => entry.1 = entry'.1 ∧ entry.2.equal entry'.2)
      entries entries') (passThrough : Bool) :
    Equal (.expressions entries passThrough) (.expressions entries' passThrough)
  | function {source source' : Expr} (h : source.equal source') :
    Equal (.function source) (.function source')
  | custom (component : String) (config : Json) :
    Equal (.custom component config) (.custom component config)
  | decision (key : String) : Equal (.decision key) (.decision key)

structure Step.Equal (s s' : Step) : Prop where
  id : s.id = s'.id
  name : s.name = s'.name
  sources : s.sources = s'.sources
  program : s.program.Equal s'.program

structure Decision.Equal (d d' : Decision) : Prop where
  steps : List.Forall₂ Step.Equal d.steps d'.steps
  outputs : d.outputs = d'.outputs
  key : d.key = d'.key
  edgeCount : d.edgeCount = d'.edgeCount
  version : d.version = d'.version

/-- The expressions of a table: the fields of its columns and what its cells hold. -/
def Table.exprs (t : Table) : List Expr :=
  t.inputs.filterMap TableInput.field ++
    t.rows.flatMap fun r => (r.conditions ++ r.outputs).reduceOption

def Program.exprs : Program → List Expr
  | .table t => t.exprs
  | .expressions entries _ => entries.map Prod.snd
  | .function source => [source]
  | _ => []

/-- Every expression of a decision. -/
def Decision.exprs (d : Decision) : List Expr :=
  d.steps.flatMap fun s => s.program.exprs

def Program.positions : Program → List Nat
  | .table t => t.rows.map Row.index
  | _ => []

/-- Every position and count in a decision. -/
def Decision.positions (d : Decision) : List Nat :=
  d.edgeCount :: (d.outputs ++ d.steps.flatMap fun s => s.sources ++ s.program.positions)

namespace Json
variable {α : Type} {decode : Json → Option α} {encode : α → Json}

theorem listOf?_map {R : α → α → Prop} {as : List α}
    (h : ∀ a ∈ as, ∃ a', decode (encode a) = some a' ∧ R a' a) :
    ∃ as', listOf? decode (.array (as.map encode)) = some as' ∧ List.Forall₂ R as' as := by
  induction as with
  | nil => exact ⟨[], rfl, .nil⟩
  | cons a rest ih =>
    obtain ⟨⟨a', ha, hequal⟩, hrest⟩ := List.forall_mem_cons.1 h
    obtain ⟨rest', hrest, hequals⟩ := ih hrest
    refine ⟨a' :: rest', ?_, .cons hequal hequals⟩
    change ((a :: rest).map encode).mapM decode = _
    rw [List.map_cons, List.mapM_cons]
    exact step ha <| step hrest rfl

theorem listOf?_map_eq {as : List α} (h : ∀ a ∈ as, decode (encode a) = some a) :
    listOf? decode (.array (as.map encode)) = some as := by
  obtain ⟨as', has, hequal⟩ := listOf?_map (R := Eq) fun a ha => ⟨a, h a ha, rfl⟩
  rw [List.forall₂_eq_eq_eq] at hequal
  rwa [hequal] at has

theorem optionalString_ofOption {fields : List (String × Json)} {name : String} {s : Option String}
    (h : fields.lookup name = some (.ofOption s)) : optionalString fields name = some s := by
  rw [optionalString, h]
  cases s <;> rfl

theorem index?_ofIndex {n : Nat} (h : n < Nat.pow 2 64) : index? (.ofIndex n) = some n :=
  if_pos ⟨Int.natCast_nonneg n, h⟩

theorem listOf?_index {ns : List Nat} (h : ∀ n ∈ ns, n < Nat.pow 2 64) :
    listOf? index? (.array (ns.map ofIndex)) = some ns :=
  listOf?_map_eq fun n hn => index?_ofIndex (h n hn)

theorem optional_of_ne_null {j : Json} (h : j ≠ .null) :
    optional decode (some j) = (decode j).map some := by
  cases j with
  | null => exact absurd rfl h
  | _ => rfl

theorem exists_of_stored {β : Type} {P : β → Prop} {members : List (String × Json)}
    {decode : List (String × Json) → Option β} (names : List String)
    (hnames : members.map Prod.fst = names) (hnodup : names.Nodup)
    (h : ∀ fields : List (String × Json), (∀ name, fields.lookup name = members.lookup name) →
      ∃ b, decode fields = some b ∧ P b) :
    ∃ b, ((record members).stored? names >>= decode) = some b ∧ P b := by
  obtain ⟨fields, hfields, hlookup⟩ := fields?_record hnames hnodup
  obtain ⟨b, hb, hP⟩ := h fields hlookup
  exact ⟨b, step hfields hb, hP⟩

theorem exists_of_content {β : Type} {P : β → Prop} {tag : String}
    {members : List (String × Json)} {decode : Json → Option β} (names : List String)
    (hnames : members.map Prod.fst = names) (hnodup : names.Nodup)
    (h : ∀ fields : List (String × Json), (record members).fields? names = some fields →
      (∀ name, fields.lookup name = members.lookup name) →
      ∃ b, decode (variant tag (record members)) = some b ∧ P b) :
    ∃ b, decode (variant tag (record members)) = some b ∧ P b := by
  obtain ⟨fields, hfields, hlookup⟩ := fields?_record hnames hnodup
  exact h fields hfields hlookup

end Json

theorem Form.required_eq {α β : Type} {decode : α → Option β} {fields : List (String × α)}
    {name : String} {a : α} {b : β} (hlookup : fields.lookup name = some a)
    (h : decode a = some b) : Form.required decode fields name = some b := by
  rw [Form.required, hlookup]
  exact h

theorem Expr.toJson_ne_null (e : Expr) : e.toJson ≠ .null := by
  cases e <;> exact nofun

/-- An expression, the literal null included, is not mistaken for an empty cell. -/
theorem Row.cell?_ofCell {c : Option Expr} (h : ∀ e ∈ c, e.HasFiniteLiterals) :
    ∃ c', cell? (.ofCell c) = some c' ∧ CellEqual c' c := by
  cases c with
  | none => exact ⟨none, rfl, .none⟩
  | some e =>
    obtain ⟨e', he, hequal⟩ := e.ofJson?_toJson (h e rfl)
    refine ⟨some e', ?_, .some hequal⟩
    rw [cell?, Json.ofCell, Json.optional_of_ne_null e.toJson_ne_null, he]
    rfl

/-! ## Records

Each record is read back field by field, in the order in which its decoder asks for them. -/

open Form Json

theorem TableInput.ofJson?_toJson {c : TableInput} (h : ∀ e ∈ c.field, e.HasFiniteLiterals) :
    ∃ c', ofJson? c.toJson = some c' ∧ c'.Equal c := by
  obtain ⟨field', hfield, hequal⟩ := Row.cell?_ofCell h
  refine exists_of_stored ["id", "name", "field"] (by rfl) (by decide) fun fields hlookup => ?_
  refine ⟨⟨c.id, c.name, field'⟩, ?_, ⟨rfl, rfl, hequal⟩⟩
  refine step (required_eq (hlookup "id") rfl) <| step (required_eq (hlookup "name") rfl) ?_
  rw [hlookup "field"]
  exact step hfield rfl

@[simp] theorem TableOutput.ofJson?_toJson (c : TableOutput) : ofJson? c.toJson = some c := by
  suffices ∃ c', ofJson? c.toJson = some c' ∧ c' = c by
    obtain ⟨_, hc, rfl⟩ := this
    exact hc
  refine exists_of_stored ["id", "name", "path"] (by rfl) (by decide) fun fields hlookup => ?_
  refine ⟨c, ?_, rfl⟩
  exact step (required_eq (hlookup "id") rfl) <| step (required_eq (hlookup "name") rfl) <|
    step (required_eq (hlookup "path") (strings?_strings c.path)) rfl

theorem Row.ofJson?_toJson {r : Row} (hr : r.index < Nat.pow 2 64)
    (h : ∀ e ∈ (r.conditions ++ r.outputs).reduceOption, e.HasFiniteLiterals) :
    ∃ r', ofJson? r.toJson = some r' ∧ r'.Equal r := by
  have hcell (c : Option Expr) (hc : c ∈ r.conditions ++ r.outputs) :=
    cell?_ofCell fun e he => h e (List.reduceOption_mem_iff.2 (he ▸ hc))
  obtain ⟨conditions', hconditions, hequal⟩ := listOf?_map fun c hc =>
    hcell c (List.mem_append_left _ hc)
  obtain ⟨outputs', houtputs, hequal'⟩ := listOf?_map fun c hc =>
    hcell c (List.mem_append_right _ hc)
  refine exists_of_stored ["index", "id", "is_default", "conditions", "outputs"] (by rfl)
    (by decide) fun fields hlookup => ?_
  refine ⟨⟨r.index, r.id, r.isDefault, conditions', outputs'⟩, ?_,
    ⟨rfl, rfl, rfl, hequal, hequal'⟩⟩
  exact step (required_eq (hlookup "index") (index?_ofIndex hr)) <|
    step (optionalString_ofOption (hlookup "id")) <|
    step (required_eq (hlookup "is_default") rfl) <|
    step (required_eq (hlookup "conditions") hconditions) <|
    step (required_eq (hlookup "outputs") houtputs) rfl

@[simp] theorem HitPolicy.ofJson?_tag (p : HitPolicy) : ofJson? (.string p.tag) = some p := by
  cases p <;> rfl

theorem Table.ofJson?_toJson {t : Table} (hindex : ∀ r ∈ t.rows, r.index < Nat.pow 2 64)
    (h : ∀ e ∈ t.exprs, e.HasFiniteLiterals) : ∃ t', ofJson? t.toJson = some t' ∧ t'.Equal t := by
  rw [exprs, List.forall_mem_append] at h
  obtain ⟨inputs', hinputs, hequal⟩ := listOf?_map fun c hc =>
    TableInput.ofJson?_toJson (c := c) fun e he => h.1 e (List.mem_filterMap.2 ⟨c, hc, he⟩)
  obtain ⟨rows', hrows, hequal'⟩ := listOf?_map fun r hr =>
    Row.ofJson?_toJson (hindex r hr) fun e he => h.2 e (List.mem_flatMap.2 ⟨r, hr, he⟩)
  refine exists_of_stored ["hit_policy", "inputs", "outputs", "rows", "pass_through"] (by rfl)
    (by decide) fun fields hlookup => ?_
  refine ⟨⟨t.policy, inputs', t.outputs, rows', t.passThrough⟩, ?_,
    ⟨rfl, hequal, rfl, hequal', rfl⟩⟩
  exact step (required_eq (hlookup "hit_policy") t.policy.ofJson?_tag) <|
    step (required_eq (hlookup "inputs") hinputs) <|
    step (required_eq (hlookup "outputs") (listOf?_map_eq fun c _ => c.ofJson?_toJson)) <|
    step (required_eq (hlookup "rows") hrows) <|
    step (required_eq (hlookup "pass_through") rfl) rfl

theorem Program.entry?_toJson {entry : List String × Expr} (h : entry.2.HasFiniteLiterals) :
    ∃ entry', entry? (.array [.strings entry.1, entry.2.toJson]) = some entry' ∧
      entry'.1 = entry.1 ∧ entry'.2.equal entry.2 := by
  obtain ⟨e', he, hequal⟩ := entry.2.ofJson?_toJson h
  exact ⟨(entry.1, e'), step (strings?_strings entry.1) <| step he rfl, rfl, hequal⟩

theorem Program.ofJson?_toJson {p : Program} (hindex : ∀ n ∈ p.positions, n < Nat.pow 2 64)
    (h : ∀ e ∈ p.exprs, e.HasFiniteLiterals) : ∃ p', ofJson? p.toJson = some p' ∧ p'.Equal p := by
  cases p with
  | input schema =>
    refine exists_of_content ["schema"] (by rfl) (by decide) fun fields hfields hlookup => ?_
    refine ⟨.input schema, step rfl <| step hfields ?_, .input schema⟩
    rw [hlookup "schema"]
    cases schema with
    | none => rfl
    | some names => exact step (congrArg (Option.map some) (strings?_strings names)) rfl
  | output => exact ⟨.output, rfl, .output⟩
  | table t =>
    obtain ⟨t', ht, hequal⟩ :=
      Table.ofJson?_toJson (fun r hr => hindex r.index (List.mem_map_of_mem hr)) h
    exact ⟨.table t', step rfl <| step ht rfl, .table hequal⟩
  | expressions entries passThrough =>
    obtain ⟨entries', hentries, hequal⟩ := listOf?_map fun entry hentry =>
      entry?_toJson (h entry.2 (List.mem_map_of_mem hentry))
    refine exists_of_content ["entries", "pass_through"] (by rfl) (by decide)
      fun fields hfields hlookup => ?_
    refine ⟨.expressions entries' passThrough, ?_, .expressions hequal passThrough⟩
    exact step rfl <| step hfields <| step (required_eq (hlookup "entries") hentries) <|
      step (required_eq (hlookup "pass_through") rfl) rfl
  | function source =>
    have hfinite := h source (List.mem_singleton_self source)
    obtain ⟨source', hsource, hequal⟩ := source.ofJson?_toJson hfinite
    refine exists_of_content ["source"] (by rfl) (by decide) fun fields hfields hlookup => ?_
    refine ⟨.function source', ?_, .function hequal⟩
    exact step rfl <| step hfields <| step (required_eq (hlookup "source") hsource) rfl
  | custom component config =>
    refine exists_of_content ["component", "config"] (by rfl) (by decide)
      fun fields hfields hlookup => ?_
    refine ⟨.custom component config, ?_, .custom component config⟩
    exact step rfl <| step hfields <| step (required_eq (hlookup "component") rfl) <|
      step (hlookup "config") rfl
  | decision key =>
    refine exists_of_content ["key"] (by rfl) (by decide) fun fields hfields hlookup => ?_
    refine ⟨.decision key, ?_, .decision key⟩
    exact step rfl <| step hfields <| step (required_eq (hlookup "key") rfl) rfl

theorem Step.ofJson?_toJson {s : Step}
    (hindex : ∀ n ∈ s.sources ++ s.program.positions, n < Nat.pow 2 64)
    (h : ∀ e ∈ s.program.exprs, e.HasFiniteLiterals) :
    ∃ s', ofJson? s.toJson = some s' ∧ s'.Equal s := by
  rw [List.forall_mem_append] at hindex
  obtain ⟨program', hprogram, hequal⟩ := Program.ofJson?_toJson hindex.2 h
  refine exists_of_stored ["id", "name", "upstream", "program"] (by rfl) (by decide)
    fun fields hlookup => ?_
  refine ⟨⟨s.id, s.name, s.sources, program'⟩, ?_, ⟨rfl, rfl, rfl, hequal⟩⟩
  exact step (required_eq (hlookup "id") rfl) <| step (required_eq (hlookup "name") rfl) <|
    step (required_eq (hlookup "upstream") (listOf?_index hindex.1)) <|
    step (required_eq (hlookup "program") hprogram) rfl

theorem Decision.ofJson?_toJson {d : Decision} (hindex : ∀ n ∈ d.positions, n < Nat.pow 2 64)
    (h : ∀ e ∈ d.exprs, e.HasFiniteLiterals) : ∃ d', ofJson? d.toJson = some d' ∧ d'.Equal d := by
  obtain ⟨hcount, hindex⟩ := List.forall_mem_cons.1 hindex
  rw [List.forall_mem_append] at hindex
  obtain ⟨steps', hsteps, hequal⟩ := listOf?_map fun s hs =>
    Step.ofJson?_toJson (s := s) (fun n hn => hindex.2 n (List.mem_flatMap.2 ⟨s, hs, hn⟩))
      fun e he => h e (List.mem_flatMap.2 ⟨s, hs, he⟩)
  obtain ⟨metadata, hmetadata, hfound⟩ := fields?_record
    (show List.map Prod.fst [("key", .ofOption d.key), ("edge_count", .ofIndex d.edgeCount),
      ("compiler_version", .string d.version)] = ["key", "edge_count", "compiler_version"] from rfl)
    (by decide)
  refine exists_of_stored ["nodes", "outputs", "metadata"] (by rfl) (by decide)
    fun fields hlookup => ?_
  refine ⟨⟨steps', d.outputs, d.key, d.edgeCount, d.version⟩, ?_, ⟨hequal, rfl, rfl, rfl, rfl⟩⟩
  exact step (hlookup "metadata") <| step hmetadata <|
    step (required_eq (hlookup "nodes") hsteps) <|
    step (required_eq (hlookup "outputs") (listOf?_index hindex.1)) <|
    step (optionalString_ofOption (hfound "key")) <|
    step (required_eq (hfound "edge_count") (index?_ofIndex hcount)) <|
    step (required_eq (hfound "compiler_version") rfl) rfl

end RuleGraph

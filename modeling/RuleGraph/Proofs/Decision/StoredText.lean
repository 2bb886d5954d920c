import RuleGraph.Proofs.Decision.Stored
import RuleGraph.Proofs.Expr.Ordered
import RuleGraph.Proofs.Json.TextTrees
/-!
# Decisions that are read back from their texts

A stored decision is written with the fields of its records in any order. Its text is read back as
an equal decision unless it nests too deeply, which a chain of 61 operators already does.
-/
namespace RuleGraph

namespace Json

theorem WellFormed.record {members : List (String × Json)} (h : ∀ m ∈ members, m.2.WellFormed) :
    (record members).WellFormed :=
  .object (Members.sorted_ofList members) fun m hm => h m (Members.mem_of_mem_ofList hm)

theorem WellFormed.variant {content : Json} (h : content.WellFormed) (tag : String) :
    (variant tag content).WellFormed :=
  .object (List.pairwise_singleton _ _) (List.forall_mem_singleton.2 h)

theorem WellFormed.strings (ss : List String) : (strings ss).WellFormed :=
  .array (List.forall_mem_map.2 fun s _ => .string s)

theorem WellFormed.ofIndex {n : Nat} (hn : n < Nat.pow 2 64) : (ofIndex n).WellFormed := by
  rw [Nat.pow_eq] at hn
  exact .integer (by omega) (by omega)

theorem WellFormed.indices {ns : List Nat} (h : ∀ n ∈ ns, n < Nat.pow 2 64) :
    (Json.array (ns.map Json.ofIndex)).WellFormed :=
  .array (List.forall_mem_map.2 fun n hn => .ofIndex (h n hn))

theorem WellFormed.ofOption (s : Option String) : (ofOption s).WellFormed := by
  cases s with
  | none => exact .null
  | some s => exact .string s

theorem WellFormed.ofNumber (x : Float) : (ofNumber x).WellFormed := by
  unfold Json.ofNumber
  split
  · next h =>
    have hbound : (Number.toInt x).natAbs < 2 ^ 53 :=
      of_decide_eq_true (Bool.and_eq_true_iff.1 h).2
    exact .integer (by omega) (by omega)
  · split
    · next h => exact .decimal h
    · exact .null

end Json

open Json

theorem Value.Ordered.wellFormed_toJson {v : Value} (h : v.Ordered) : v.toJson.WellFormed := by
  induction h with
  | null => exact .null
  | bool b => exact .bool b
  | number x => exact .ofNumber x
  | string s => exact .string s
  | array h ih =>
    rw [toJson, itemsToJson_eq_map]
    exact .array (List.forall_mem_map.2 ih)
  | object hsorted h ih =>
    rw [toJson, membersToJson_eq_map]
    refine .object ?_ (List.forall_mem_map.2 ih)
    rw [Members.Sorted, List.map_map]
    exact hsorted

namespace Expr

mutual

theorem wellFormed_toJson (e : Expr) (h : ∀ v ∈ e.literals, v.Ordered) : e.toJson.WellFormed := by
  match e with
  | .literal v => exact (h v (List.mem_singleton_self v)).wellFormed_toJson.variant _
  | .field path => exact (WellFormed.strings path).variant _
  | .subject => exact .string _
  | .element => exact .string _
  | .index base key =>
    rw [literals, List.forall_mem_append] at h
    refine (WellFormed.record ?_).variant _
    simp only [List.forall_mem_cons]
    exact ⟨wellFormed_toJson base h.1, wellFormed_toJson key h.2, List.forall_mem_nil _⟩
  | .binary left op right =>
    rw [literals, List.forall_mem_append] at h
    refine (WellFormed.record ?_).variant _
    simp only [List.forall_mem_cons]
    exact ⟨wellFormed_toJson left h.1, .string _, wellFormed_toJson right h.2,
      List.forall_mem_nil _⟩
  | .unary op operand =>
    refine (WellFormed.record ?_).variant _
    simp only [List.forall_mem_cons]
    exact ⟨.string _, wellFormed_toJson operand h, List.forall_mem_nil _⟩
  | .call f args =>
    refine (WellFormed.record ?_).variant _
    simp only [List.forall_mem_cons]
    exact ⟨.string _, .array (wellFormed_allToJson args h), List.forall_mem_nil _⟩
  | .ternary condition yes no =>
    rw [literals, List.forall_mem_append, List.forall_mem_append] at h
    refine (WellFormed.record ?_).variant _
    simp only [List.forall_mem_cons]
    exact ⟨wellFormed_toJson condition h.1.1, wellFormed_toJson yes h.1.2,
      wellFormed_toJson no h.2, List.forall_mem_nil _⟩
  | .array items => exact (WellFormed.array (wellFormed_allToJson items h)).variant _
  | .object entries => exact (WellFormed.array (wellFormed_entriesToJson entries h)).variant _
  | .interval start stop startIncluded stopIncluded =>
    rw [literals, List.forall_mem_append] at h
    refine (WellFormed.record ?_).variant _
    simp only [List.forall_mem_cons]
    exact ⟨wellFormed_toJson start h.1, wellFormed_toJson stop h.2, .bool _, .bool _,
      List.forall_mem_nil _⟩
termination_by structural e

theorem wellFormed_allToJson (es : List Expr) (h : ∀ v ∈ allLiterals es, v.Ordered) :
    ∀ j ∈ allToJson es, j.WellFormed := by
  match es with
  | [] => exact List.forall_mem_nil _
  | e :: rest =>
    rw [allLiterals, List.forall_mem_append] at h
    exact List.forall_mem_cons.2 ⟨wellFormed_toJson e h.1, wellFormed_allToJson rest h.2⟩
termination_by structural es

theorem wellFormed_entriesToJson (entries : List (String × Expr))
    (h : ∀ v ∈ entriesLiterals entries, v.Ordered) :
    ∀ j ∈ entriesToJson entries, j.WellFormed := by
  match entries with
  | [] => exact List.forall_mem_nil _
  | (key, e) :: rest =>
    rw [entriesLiterals, List.forall_mem_append] at h
    refine List.forall_mem_cons.2 ⟨.array ?_, wellFormed_entriesToJson rest h.2⟩
    exact List.forall_mem_cons.2
      ⟨.string key, List.forall_mem_singleton.2 (wellFormed_toJson e h.1)⟩
termination_by structural entries

end

end Expr

/-- The literals have their members in order, as every value has. -/
def Expr.HasOrderedLiterals (e : Expr) : Prop :=
  ∀ v ∈ e.literals, v.Ordered

theorem Json.WellFormed.ofCell {c : Option Expr} (h : ∀ e ∈ c, e.HasOrderedLiterals) :
    (Json.ofCell c).WellFormed := by
  cases c with
  | none => exact .null
  | some e => exact e.wellFormed_toJson (h e rfl)

theorem Json.WellFormed.cells {cs : List (Option Expr)}
    (h : ∀ e ∈ cs.reduceOption, e.HasOrderedLiterals) :
    (Json.array (cs.map Json.ofCell)).WellFormed :=
  .array (List.forall_mem_map.2 fun _ hc =>
    .ofCell fun e he => h e (List.reduceOption_mem_iff.2 (he ▸ hc)))

theorem TableInput.wellFormed_toJson {c : TableInput}
    (h : ∀ e ∈ c.field, e.HasOrderedLiterals) : c.toJson.WellFormed := by
  refine .record ?_
  simp only [List.forall_mem_cons]
  exact ⟨.string _, .string _, .ofCell h, List.forall_mem_nil _⟩

theorem TableOutput.wellFormed_toJson (c : TableOutput) : c.toJson.WellFormed := by
  refine .record ?_
  simp only [List.forall_mem_cons]
  exact ⟨.string _, .string _, .strings _, List.forall_mem_nil _⟩

theorem Row.wellFormed_toJson {r : Row} (hr : r.index < Nat.pow 2 64)
    (h : ∀ e ∈ (r.conditions ++ r.outputs).reduceOption, e.HasOrderedLiterals) :
    r.toJson.WellFormed := by
  rw [List.reduceOption_append, List.forall_mem_append] at h
  refine .record ?_
  simp only [List.forall_mem_cons]
  exact ⟨.ofIndex hr, .ofOption _, .bool _, .cells h.1, .cells h.2, List.forall_mem_nil _⟩

theorem Table.wellFormed_toJson {t : Table} (hindex : ∀ r ∈ t.rows, r.index < Nat.pow 2 64)
    (h : ∀ e ∈ t.exprs, e.HasOrderedLiterals) : t.toJson.WellFormed := by
  rw [exprs, List.forall_mem_append] at h
  have hinputs : (Json.array (t.inputs.map TableInput.toJson)).WellFormed :=
    .array (List.forall_mem_map.2 fun c hc =>
      TableInput.wellFormed_toJson fun e he => h.1 e (List.mem_filterMap.2 ⟨c, hc, he⟩))
  have houtputs : (Json.array (t.outputs.map TableOutput.toJson)).WellFormed :=
    .array (List.forall_mem_map.2 fun c _ => c.wellFormed_toJson)
  have hrows : (Json.array (t.rows.map Row.toJson)).WellFormed :=
    .array (List.forall_mem_map.2 fun r hr =>
      Row.wellFormed_toJson (hindex r hr) fun e he => h.2 e (List.mem_flatMap.2 ⟨r, hr, he⟩))
  refine .record ?_
  simp only [List.forall_mem_cons]
  exact ⟨.string _, hinputs, houtputs, hrows, .bool _, List.forall_mem_nil _⟩

def Program.configs : Program → List Json
  | .custom _ config => [config]
  | _ => []

theorem Program.wellFormed_toJson {p : Program} (hindex : ∀ n ∈ p.positions, n < Nat.pow 2 64)
    (h : ∀ e ∈ p.exprs, e.HasOrderedLiterals) (hconfigs : ∀ j ∈ p.configs, j.WellFormed) :
    p.toJson.WellFormed := by
  cases p with
  | input schema =>
    refine (WellFormed.record (List.forall_mem_singleton.2 ?_)).variant _
    cases schema with
    | none => exact .null
    | some names => exact .strings names
  | output => exact .string _
  | table t =>
    exact (Table.wellFormed_toJson (fun r hr => hindex r.index (List.mem_map_of_mem hr))
      h).variant _
  | expressions entries passThrough =>
    have hentries : (Json.array (entries.map fun entry =>
        .array [.strings entry.1, entry.2.toJson])).WellFormed := by
      refine .array (List.forall_mem_map.2 fun entry hentry => .array ?_)
      have he := h entry.2 (List.mem_map_of_mem hentry)
      exact List.forall_mem_cons.2 ⟨.strings _, List.forall_mem_singleton.2
        (entry.2.wellFormed_toJson he)⟩
    refine (WellFormed.record ?_).variant _
    simp only [List.forall_mem_cons]
    exact ⟨hentries, .bool _, List.forall_mem_nil _⟩
  | function source =>
    have hsource := source.wellFormed_toJson (h source (List.mem_singleton_self source))
    exact (WellFormed.record (List.forall_mem_singleton.2 hsource)).variant _
  | custom component config =>
    refine (WellFormed.record ?_).variant _
    simp only [List.forall_mem_cons]
    exact ⟨.string _, hconfigs config (List.mem_singleton_self config), List.forall_mem_nil _⟩
  | decision key =>
    exact (WellFormed.record (List.forall_mem_singleton.2 (.string _))).variant _

theorem Step.wellFormed_toJson {s : Step}
    (hindex : ∀ n ∈ s.sources ++ s.program.positions, n < Nat.pow 2 64)
    (h : ∀ e ∈ s.program.exprs, e.HasOrderedLiterals)
    (hconfigs : ∀ j ∈ s.program.configs, j.WellFormed) : s.toJson.WellFormed := by
  rw [List.forall_mem_append] at hindex
  refine .record ?_
  simp only [List.forall_mem_cons]
  exact ⟨.string _, .string _, .indices hindex.1, Program.wellFormed_toJson hindex.2 h hconfigs,
    List.forall_mem_nil _⟩

/-- What a compiled decision can hold: finite literals with their members in order, trees of texts
as configurations, and positions and counts of 64 bits. -/
structure Decision.Storable (d : Decision) : Prop where
  finite : ∀ e ∈ d.exprs, e.HasFiniteLiterals
  ordered : ∀ e ∈ d.exprs, e.HasOrderedLiterals
  configs : ∀ s ∈ d.steps, ∀ j ∈ s.program.configs, j.WellFormed
  positions : ∀ n ∈ d.positions, n < Nat.pow 2 64

theorem Decision.Storable.wellFormed {d : Decision} (hd : d.Storable) :
    d.toJson.WellFormed := by
  obtain ⟨hcount, hindex⟩ := List.forall_mem_cons.1 hd.positions
  rw [List.forall_mem_append] at hindex
  have hsteps : (Json.array (d.steps.map Step.toJson)).WellFormed := by
    refine .array (List.forall_mem_map.2 fun s hs => ?_)
    exact Step.wellFormed_toJson (fun n hn => hindex.2 n (List.mem_flatMap.2 ⟨s, hs, hn⟩))
      (fun e he => hd.ordered e (List.mem_flatMap.2 ⟨s, hs, he⟩)) (hd.configs s hs)
  have hmetadata : (Json.record [("key", .ofOption d.key), ("edge_count", .ofIndex d.edgeCount),
      ("compiler_version", .string d.version)]).WellFormed := by
    refine .record ?_
    simp only [List.forall_mem_cons]
    exact ⟨.ofOption _, .ofIndex hcount, .string _, List.forall_mem_nil _⟩
  refine .record ?_
  simp only [List.forall_mem_cons]
  exact ⟨hsteps, .indices hindex.1, hmetadata, List.forall_mem_nil _⟩

/-- Every text of the tree is read, its records written in any order, as something that is `R`,
unless it nests too deeply. -/
def Json.StoresIn {α : Type} (stored : Json) (ofText? : String → Option α) (R : α → Prop) : Prop :=
  stored.arranged = stored ∧ ∀ j : Json, j.arranged = stored → (∀ k ∈ j.numbers, k.ReadsBack) →
    if j.depth < depthLimit then ∃ a, ofText? j.text = some a ∧ R a else ofText? j.text = none

theorem Json.WellFormed.storesIn {α : Type} {stored : Json} {ofJson? : Json → Option α}
    {R : α → Prop} (hstored : stored.WellFormed) (h : ∃ a, ofJson? stored = some a ∧ R a) :
    stored.StoresIn (fun text => (Json.read text.toUTF8.toList).bind ofJson?) R := by
  refine ⟨hstored.arranged, fun j hj hnumbers => ?_⟩
  dsimp only
  rw [read_text hnumbers]
  split
  · rwa [Option.bind_some, hj]
  · rfl

theorem Json.StoresIn.read {α : Type} {stored j : Json} {ofText? : String → Option α}
    {R : α → Prop} (h : stored.StoresIn ofText? R) (hj : j.arranged = stored)
    (hnumbers : ∀ k ∈ j.numbers, k.ReadsBack) (hdepth : j.depth < depthLimit) :
    ∃ a, ofText? j.text = some a ∧ R a := by
  have hread := h.2 j hj hnumbers
  rwa [if_pos hdepth] at hread

/-- A fee that is null, and not just left out, for customers whose age is null. -/
def feeDecision : Decision where
  steps := [
    ⟨"in", "Request", [], .input (some ["age"])⟩,
    ⟨"fee", "Fee", [0], .table {
      policy := .first
      inputs := [⟨"age", "Age", some (.field ["age"])⟩, ⟨"open", "Open", none⟩]
      outputs := [⟨"fee", "Fee", ["fee"]⟩, ⟨"note", "Note", ["note"]⟩]
      rows := [
        ⟨0, some "unknown", false, [some (.literal .null), none], [some (.literal .null), none]⟩,
        ⟨1, none, true, [none, none], [some (.literal (.number 12.5)), none]⟩]
      passThrough := false }⟩,
    ⟨"round", "Rounding", [1], .custom "round" (.record [("digits", .integer 2)])⟩,
    ⟨"out", "Response", [2], .output⟩]
  outputs := [3]
  key := none
  edgeCount := 3
  version := "0.1.0"

theorem feeDecision_storable : feeDecision.Storable := by
  have hexprs : feeDecision.exprs =
      [.field ["age"], .literal .null, .literal .null, .literal (.number 12.5)] := rfl
  have hfee : (Expr.literal (.number 12.5)).HasFiniteLiterals :=
    Value.isFinite_number.2 (by decide +kernel)
  refine ⟨?_, ?_, ?_, by decide⟩
  · rw [hexprs]
    simp only [List.forall_mem_cons]
    exact ⟨trivial, rfl, rfl, hfee, List.forall_mem_nil _⟩
  · rw [hexprs]
    simp only [List.forall_mem_cons, Expr.HasOrderedLiterals, Expr.literals]
    exact ⟨List.forall_mem_nil _, ⟨.null, List.forall_mem_nil _⟩, ⟨.null, List.forall_mem_nil _⟩,
      ⟨.number _, List.forall_mem_nil _⟩, List.forall_mem_nil _⟩
  · have hconfig : (Json.record [("digits", .integer 2)]).WellFormed :=
      .record (List.forall_mem_singleton.2 (.integer (by decide) (by decide)))
    simp only [feeDecision, Program.configs, List.forall_mem_cons]
    exact ⟨List.forall_mem_nil _, List.forall_mem_nil _, ⟨hconfig, List.forall_mem_nil _⟩,
      List.forall_mem_nil _, List.forall_mem_nil _⟩

/-- A call, with its function in front of its arguments. -/
def storedCall : Json :=
  .object [("FunctionCall", .object [("function", .string "Round"),
    ("args", .array [.object [("Literal", .decimal 12.5)]])])]

example : storedCall.text = "\x7b\"FunctionCall\":" ++
    "\x7b\"function\":\"Round\",\"args\":[\x7b\"Literal\":12.5\x7d]\x7d\x7d" := by
  decide +kernel

namespace Expr

/-- The sum of `n + 1` times the field `a`. -/
def sumOf : Nat → Expr
  | 0 => .field ["a"]
  | n + 1 => .binary (sumOf n) .add (.field ["a"])

theorem finite_sumOf (n : Nat) : (sumOf n).HasFiniteLiterals := by
  induction n with
  | zero => exact trivial
  | succ n ih => exact ⟨ih, trivial⟩

theorem toJson_sumOf_succ (n : Nat) : (sumOf (n + 1)).toJson = .object [("Binary", .object
    [("left", (sumOf n).toJson), ("op", .string "Add"), ("right", (sumOf 0).toJson)])] :=
  rfl

/-- Each operator takes two levels. -/
theorem depth_toJson_sumOf (n : Nat) : (sumOf n).toJson.depth = 2 * n + 2 := by
  induction n with
  | zero => rfl
  | succ n ih =>
    have hzero : (sumOf 0).toJson.depth = 2 := rfl
    rw [toJson_sumOf_succ]
    simp only [depth, membersDepth, ih, hzero]
    omega

theorem numbers_toJson_sumOf (n : Nat) : (sumOf n).toJson.numbers = [] := by
  induction n with
  | zero => rfl
  | succ n ih =>
    rw [toJson_sumOf_succ]
    simp only [numbers, memberNumbers, ih]
    rfl

end Expr

/-- A decision of one step, which sums up. -/
def longSum : Decision where
  steps := [⟨"sum", "Sum", [], .function (.sumOf 61)⟩]
  outputs := [0]
  key := none
  edgeCount := 0
  version := "0.1.0"

theorem toJson_longSum : longSum.toJson = .object [
    ("metadata", .object [
      ("compiler_version", .string "0.1.0"), ("edge_count", .integer 0), ("key", .null)]),
    ("nodes", .array [.object [
      ("id", .string "sum"), ("name", .string "Sum"),
      ("program", .object [("Function", .object [("source", (Expr.sumOf 61).toJson)])]),
      ("upstream", .array [])]]),
    ("outputs", .array [.integer 0])] :=
  rfl

end RuleGraph

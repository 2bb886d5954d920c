import RuleGraph.Proofs.Expr.Overflow
import RuleGraph.Proofs.Json.Fields
import RuleGraph.Proofs.Value.Stored
/-!
# Expressions that are read back from JSON

Every expression whose literals are finite is read back from its tree as an equal one. Equality
compares literals as values, so that their numbers are compared as numbers.
-/
namespace RuleGraph

namespace Expr

mutual

def equal : Expr → Expr → Bool
  | .literal v, .literal w => v.equal w
  | .field path, .field path' => path == path'
  | .subject, .subject => true
  | .element, .element => true
  | .index base key, .index base' key' => base.equal base' && key.equal key'
  | .binary left op right, .binary left' op' right' =>
    left.equal left' && op == op' && right.equal right'
  | .unary op operand, .unary op' operand' => op == op' && operand.equal operand'
  | .call f args, .call f' args' => f == f' && equalAll args args'
  | .ternary condition yes no, .ternary condition' yes' no' =>
    condition.equal condition' && yes.equal yes' && no.equal no'
  | .array items, .array items' => equalAll items items'
  | .object entries, .object entries' => equalEntries entries entries'
  | .interval start stop startIncluded stopIncluded,
      .interval start' stop' startIncluded' stopIncluded' =>
    start.equal start' && stop.equal stop' && startIncluded == startIncluded' &&
      stopIncluded == stopIncluded'
  | _, _ => false
termination_by structural e => e

def equalAll : List Expr → List Expr → Bool
  | [], [] => true
  | e :: es, e' :: es' => e.equal e' && equalAll es es'
  | _, _ => false
termination_by structural es => es

def equalEntries : List (String × Expr) → List (String × Expr) → Bool
  | [], [] => true
  | (key, e) :: entries, (key', e') :: entries' =>
    key == key' && e.equal e' && equalEntries entries entries'
  | _, _ => false
termination_by structural entries => entries

end

end Expr

@[simp] theorem Operator.ofTag?_tag (op : Operator) : ofTag? op.tag = some op := by
  cases op <;> rfl

@[simp] theorem UnaryOperator.ofTag?_tag (op : UnaryOperator) : ofTag? op.tag = some op := by
  cases op <;> rfl

theorem Builtin.map_tag_every : every.map tag = [
    "Len", "Upper", "Lower", "Trim", "StartsWith", "EndsWith", "Contains", "Join", "Split", "Abs",
    "Floor", "Ceil", "Round", "Min", "Max", "Sum", "Avg", "Number", "String", "Bool", "IsNull",
    "Keys", "Values", "Flatten", "Filter", "Map", "Some", "All", "None", "Count"] := by
  decide +kernel

@[simp] theorem Builtin.ofTag?_tag (f : Builtin) : ofTag? f.tag = Option.some f := by
  have hnodup : (every.map tag).Nodup := by
    rw [map_tag_every]
    decide
  have hmem : f ∈ every := by cases f <;> decide
  obtain ⟨before, after, hevery⟩ := List.append_of_mem hmem
  rw [hevery, List.map_append, List.map_cons, List.nodup_append] at hnodup
  refine List.find?_eq_some_iff_append.2 ⟨beq_self_eq_true _, before, after, hevery, ?_⟩
  intro g hg
  have hne := hnodup.2.2 _ (List.mem_map_of_mem hg) _ List.mem_cons_self
  simpa using hne

@[simp] theorem Json.strings?_strings (ss : List String) :
    (Json.strings ss).strings? = some ss := by
  change (ss.map Json.string).mapM string? = some ss
  induction ss with
  | nil => rfl
  | cons s rest ih =>
    rw [List.map_cons, List.mapM_cons, ih]
    rfl

namespace Expr
open Json

mutual

theorem decode_toJson (e : Expr) (he : e.HasFiniteLiterals) {fuel : Nat}
    (hfuel : e.toJson.depth ≤ fuel) : ∃ e', decode fuel e.toJson = some e' ∧ e'.equal e := by
  match e with
  | .literal v =>
    obtain ⟨k, rfl, -⟩ := exists_of_variant hfuel
    exact ⟨_, rfl, v.equal_normalized he⟩
  | .field path =>
    obtain ⟨k, rfl, -⟩ := exists_of_variant hfuel
    exact ⟨.field path, step rfl <| step (strings?_strings path) rfl, beq_self_eq_true path⟩
  -- A tag alone has no depth, so that the fuel may be used up.
  | .subject =>
    cases fuel <;> exact ⟨.subject, rfl, rfl⟩
  | .element =>
    cases fuel <;> exact ⟨.element, rfl, rfl⟩
  | .index base key =>
    obtain ⟨k, fields, rfl, hfields, hlookup, hdepth⟩ :=
      exists_of_fields hfuel ["object", "index"] rfl (by decide)
    simp only [List.forall_mem_cons] at hdepth
    obtain ⟨base', hbase, hequal⟩ := decode_toJson base he.1 hdepth.1
    obtain ⟨key', hkey, hequal'⟩ := decode_toJson key he.2 hdepth.2.1
    refine ⟨.index base' key', ?_, by rw [equal, hequal, hequal']; rfl⟩
    exact step rfl <| step hfields <| step (hlookup "object") <| step hbase <|
      step (hlookup "index") <| step hkey rfl
  | .binary left op right =>
    obtain ⟨k, fields, rfl, hfields, hlookup, hdepth⟩ :=
      exists_of_fields hfuel ["left", "op", "right"] rfl (by decide)
    simp only [List.forall_mem_cons] at hdepth
    obtain ⟨left', hleft, hequal⟩ := decode_toJson left he.1 hdepth.1
    obtain ⟨right', hright, hequal'⟩ := decode_toJson right he.2 hdepth.2.2.1
    refine ⟨.binary left' op right', ?_, by rw [equal, hequal, hequal']; simp⟩
    exact step rfl <| step hfields <| step (hlookup "left") <| step hleft <|
      step (hlookup "op") <| step rfl <| step op.ofTag?_tag <|
      step (hlookup "right") <| step hright rfl
  | .unary op operand =>
    obtain ⟨k, fields, rfl, hfields, hlookup, hdepth⟩ :=
      exists_of_fields hfuel ["op", "operand"] rfl (by decide)
    simp only [List.forall_mem_cons] at hdepth
    obtain ⟨operand', hoperand, hequal⟩ := decode_toJson operand he hdepth.2.1
    refine ⟨.unary op operand', ?_, by rw [equal, hequal]; simp⟩
    exact step rfl <| step hfields <| step (hlookup "op") <| step rfl <| step op.ofTag?_tag <|
      step (hlookup "operand") <| step hoperand rfl
  | .call f args =>
    obtain ⟨k, fields, rfl, hfields, hlookup, hdepth⟩ :=
      exists_of_fields hfuel ["function", "args"] rfl (by decide)
    simp only [List.forall_mem_cons, depth] at hdepth
    obtain ⟨args', hargs, hequal⟩ := decode_allToJson args he (Nat.le_of_succ_le hdepth.2.1)
    refine ⟨.call f args', ?_, by rw [equal, hequal]; simp⟩
    exact step rfl <| step hfields <| step (hlookup "function") <| step rfl <|
      step f.ofTag?_tag <| step (hlookup "args") <| step rfl <| step hargs rfl
  | .ternary condition yes no =>
    obtain ⟨k, fields, rfl, hfields, hlookup, hdepth⟩ :=
      exists_of_fields hfuel ["condition", "true_expr", "false_expr"] rfl (by decide)
    simp only [List.forall_mem_cons] at hdepth
    obtain ⟨condition', hcondition, hequal⟩ := decode_toJson condition he.1 hdepth.1
    obtain ⟨yes', hyes, hequal'⟩ := decode_toJson yes he.2.1 hdepth.2.1
    obtain ⟨no', hno, hequal''⟩ := decode_toJson no he.2.2 hdepth.2.2.1
    refine ⟨.ternary condition' yes' no', ?_, by rw [equal, hequal, hequal', hequal'']; rfl⟩
    exact step rfl <| step hfields <| step (hlookup "condition") <| step hcondition <|
      step (hlookup "true_expr") <| step hyes <| step (hlookup "false_expr") <| step hno rfl
  | .array items =>
    obtain ⟨k, rfl, hdepth⟩ := exists_of_variant hfuel
    rw [depth] at hdepth
    obtain ⟨items', hitems, hequal⟩ := decode_allToJson items he (Nat.le_of_succ_le hdepth)
    exact ⟨.array items', step rfl <| step rfl <| step hitems rfl, hequal⟩
  | .object entries =>
    obtain ⟨k, rfl, hdepth⟩ := exists_of_variant hfuel
    rw [depth] at hdepth
    obtain ⟨entries', hentries, hequal⟩ :=
      decode_entriesToJson entries he (Nat.le_of_succ_le hdepth)
    exact ⟨.object entries', step rfl <| step rfl <| step hentries rfl, hequal⟩
  | .interval start stop startIncluded stopIncluded =>
    obtain ⟨k, fields, rfl, hfields, hlookup, hdepth⟩ := exists_of_fields hfuel
      ["start", "end", "start_inclusive", "end_inclusive"] rfl (by decide)
    simp only [List.forall_mem_cons] at hdepth
    obtain ⟨start', hstart, hequal⟩ := decode_toJson start he.1 hdepth.1
    obtain ⟨stop', hstop, hequal'⟩ := decode_toJson stop he.2 hdepth.2.1
    refine ⟨.interval start' stop' startIncluded stopIncluded, ?_, ?_⟩
    · exact step rfl <| step hfields <| step (hlookup "start") <| step hstart <|
        step (hlookup "end") <| step hstop <| step (hlookup "start_inclusive") <| step rfl <|
        step (hlookup "end_inclusive") <| step rfl rfl
    · rw [equal, hequal, hequal']
      simp
termination_by structural e

theorem decode_allToJson (es : List Expr) (he : AllHaveFiniteLiterals es) {fuel : Nat}
    (hfuel : itemsDepth (allToJson es) ≤ fuel) :
    ∃ es', (allToJson es).mapM (decode fuel) = some es' ∧ equalAll es' es := by
  match es with
  | [] => exact ⟨[], rfl, rfl⟩
  | e :: rest =>
    rw [allToJson, itemsDepth, Nat.max_le] at hfuel
    obtain ⟨e', hdecode, hequal⟩ := decode_toJson e he.1 hfuel.1
    obtain ⟨rest', hrest, hequal'⟩ := decode_allToJson rest he.2 hfuel.2
    refine ⟨e' :: rest', ?_, by rw [equalAll, hequal, hequal']; rfl⟩
    rw [allToJson, List.mapM_cons, hdecode, hrest]
    rfl
termination_by structural es

theorem decode_entriesToJson (entries : List (String × Expr))
    (he : EntriesHaveFiniteLiterals entries) {fuel : Nat}
    (hfuel : itemsDepth (entriesToJson entries) ≤ fuel) :
    ∃ entries', (entriesToJson entries).mapM (entryOf (decode fuel)) = some entries' ∧
      equalEntries entries' entries := by
  match entries with
  | [] => exact ⟨[], rfl, rfl⟩
  | (key, e) :: rest =>
    rw [entriesToJson, itemsDepth, Nat.max_le] at hfuel
    obtain ⟨hentry, hrest⟩ := hfuel
    have he' : e.toJson.depth ≤ fuel := by
      simp only [depth, itemsDepth] at hentry
      omega
    obtain ⟨e', hdecode, hequal⟩ := decode_toJson e he.1 he'
    obtain ⟨rest', hrest, hequal'⟩ := decode_entriesToJson rest he.2 hrest
    refine ⟨(key, e') :: rest', ?_, by rw [equalEntries, hequal, hequal']; simp⟩
    rw [entriesToJson, List.mapM_cons, entryOf, hdecode, hrest]
    rfl
termination_by structural entries

end

/-- An expression with finite literals is read back as an equal one. -/
theorem ofJson?_toJson (e : Expr) (he : e.HasFiniteLiterals) :
    ∃ e', ofJson? e.toJson = some e' ∧ e'.equal e :=
  e.decode_toJson he (Nat.le_refl _)

end Expr
end RuleGraph

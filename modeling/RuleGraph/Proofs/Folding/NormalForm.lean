import RuleGraph.Proofs.Expr.Nodes
import RuleGraph.Expr.Fold
/-!
# What folding leaves

Folding goes over an expression once, from the parts to the whole. Nothing is left then that it
would replace: no operator on values with a known result and no conditional on a truth value,
wherever a part that was dropped or computed may have brought one about. An expression is left as it
is exactly if it contains none.
-/
namespace RuleGraph.Expr

/-- Whether an expression is itself replaced by folding, its parts being as they are. -/
def isRedex : Expr → Bool
  | .binary (.literal v) op (.literal w) => (foldBinary op v w).isSome
  | .unary op (.literal v) => (foldUnary op v).isSome
  | .ternary (.literal (.bool _)) _ _ => true
  | _ => false

/-- Nothing in an expression is left for folding to replace. -/
def IsNormal (e : Expr) : Prop :=
  ∀ n ∈ e.nodes, n.isRedex = false

def foldParts : Expr → Expr
  | .index base key => .index base.fold key.fold
  | .binary left op right => .binary left.fold op right.fold
  | .unary op operand => .unary op operand.fold
  | .call f args => .call f (foldAll args)
  | .ternary condition yes no => .ternary condition.fold yes.fold no.fold
  | .array items => .array (foldAll items)
  | .object entries => .object (foldEntries entries)
  | .interval start stop startIncluded stopIncluded =>
    .interval start.fold stop.fold startIncluded stopIncluded
  | e => e

theorem binaryOf_cases (left : Expr) (op : Operator) (right : Expr) :
    (∃ v, binaryOf left op right = .literal v) ∧ (binary left op right).isRedex ∨
      binaryOf left op right = .binary left op right ∧
        (binary left op right).isRedex = false := by
  unfold binaryOf
  split
  · next v w =>
    cases h : foldBinary op v w with
    | some result => exact .inl ⟨⟨result, rfl⟩, by rw [isRedex, h]; rfl⟩
    | none => exact .inr ⟨rfl, by rw [isRedex, h]; rfl⟩
  · next h =>
    refine .inr ⟨rfl, ?_⟩
    unfold isRedex
    split <;> simp_all

theorem unaryOf_cases (op : UnaryOperator) (operand : Expr) :
    (∃ v, unaryOf op operand = .literal v) ∧ (unary op operand).isRedex ∨
      unaryOf op operand = .unary op operand ∧ (unary op operand).isRedex = false := by
  unfold unaryOf
  split
  · next v =>
    cases h : foldUnary op v with
    | some result => exact .inl ⟨⟨result, rfl⟩, by rw [isRedex, h]; rfl⟩
    | none => exact .inr ⟨rfl, by rw [isRedex, h]; rfl⟩
  · next h =>
    refine .inr ⟨rfl, ?_⟩
    unfold isRedex
    split <;> simp_all

theorem ternaryOf_cases (condition yes no : Expr) :
    (ternaryOf condition yes no = yes ∨ ternaryOf condition yes no = no) ∧
        (ternary condition yes no).isRedex ∨
      ternaryOf condition yes no = .ternary condition yes no ∧
        (ternary condition yes no).isRedex = false := by
  unfold ternaryOf
  split
  · next b => cases b <;> exact .inl ⟨by simp, rfl⟩
  · next h =>
    refine .inr ⟨rfl, ?_⟩
    unfold isRedex
    split <;> simp_all

/-- What is no redex once its parts are folded is folded. -/
theorem fold_eq_foldParts {e : Expr} (h : e.foldParts.isRedex = false) : e.fold = e.foldParts := by
  cases e with
  | binary left op right =>
    rcases binaryOf_cases left.fold op right.fold with ⟨-, hredex⟩ | ⟨heq, -⟩
    · exact absurd hredex (by simpa [foldParts] using h)
    · exact heq
  | unary op operand =>
    rcases unaryOf_cases op operand.fold with ⟨-, hredex⟩ | ⟨heq, -⟩
    · exact absurd hredex (by simpa [foldParts] using h)
    · exact heq
  | ternary condition yes no =>
    rcases ternaryOf_cases condition.fold yes.fold no.fold with ⟨-, hredex⟩ | ⟨heq, -⟩
    · exact absurd hredex (by simpa [foldParts] using h)
    · exact heq
  | _ => rfl

/-- What folding leaves of nodes with the first property has the second one: it is a value, or a
node with folded parts that is no redex. -/
structure Leaves (q p : Expr → Prop) : Prop where
  literal : ∀ v, p (.literal v)
  parts : ∀ m, q m → m.foldParts.isRedex = false → p m.foldParts

namespace Leaves
variable {p q : Expr → Prop}

mutual

theorem forall_nodes (hp : Leaves q p) (e : Expr) (h : ∀ m ∈ e.nodes, q m) :
    ∀ n ∈ e.fold.nodes, p n := by
  have hnode := hp.parts e (h e e.mem_nodes_self)
  match e with
  | .literal v => exact List.forall_mem_singleton.2 (hp.literal v)
  | .field _ | .subject | .element => exact List.forall_mem_singleton.2 (hnode rfl)
  | .index base key =>
    obtain ⟨hbase, hkey⟩ := List.forall_mem_append.1 (List.forall_mem_cons.1 h).2
    have hrest := List.forall_mem_append.2
      ⟨hp.forall_nodes base hbase, hp.forall_nodes key hkey⟩
    exact List.forall_mem_cons.2 ⟨hnode rfl, hrest⟩
  | .binary left op right =>
    obtain ⟨hleft, hright⟩ := List.forall_mem_append.1 (List.forall_mem_cons.1 h).2
    rw [fold]
    rcases binaryOf_cases left.fold op right.fold with ⟨⟨v, hv⟩, -⟩ | ⟨heq, hirreducible⟩
    · rw [hv]
      exact List.forall_mem_singleton.2 (hp.literal v)
    · have hrest := List.forall_mem_append.2
        ⟨hp.forall_nodes left hleft, hp.forall_nodes right hright⟩
      rw [heq]
      exact List.forall_mem_cons.2 ⟨hnode hirreducible, hrest⟩
  | .unary op operand =>
    have hoperand := hp.forall_nodes operand (List.forall_mem_cons.1 h).2
    rw [fold]
    rcases unaryOf_cases op operand.fold with ⟨⟨v, hv⟩, -⟩ | ⟨heq, hirreducible⟩
    · rw [hv]
      exact List.forall_mem_singleton.2 (hp.literal v)
    · rw [heq]
      exact List.forall_mem_cons.2 ⟨hnode hirreducible, hoperand⟩
  | .call f args =>
    have hargs := hp.forall_allNodes args (List.forall_mem_cons.1 h).2
    exact List.forall_mem_cons.2 ⟨hnode rfl, hargs⟩
  | .ternary condition yes no =>
    obtain ⟨hbefore, hno⟩ := List.forall_mem_append.1 (List.forall_mem_cons.1 h).2
    obtain ⟨hcondition, hyes⟩ := List.forall_mem_append.1 hbefore
    have hyes' := hp.forall_nodes yes hyes
    have hno' := hp.forall_nodes no hno
    rw [fold]
    rcases ternaryOf_cases condition.fold yes.fold no.fold with
      ⟨heq | heq, -⟩ | ⟨heq, hirreducible⟩
    · rwa [heq]
    · rwa [heq]
    · have hrest := List.forall_mem_append.2
        ⟨List.forall_mem_append.2 ⟨hp.forall_nodes condition hcondition, hyes'⟩, hno'⟩
      rw [heq]
      exact List.forall_mem_cons.2 ⟨hnode hirreducible, hrest⟩
  | .array items =>
    have hitems := hp.forall_allNodes items (List.forall_mem_cons.1 h).2
    exact List.forall_mem_cons.2 ⟨hnode rfl, hitems⟩
  | .object entries =>
    have hentries := hp.forall_entriesNodes entries (List.forall_mem_cons.1 h).2
    exact List.forall_mem_cons.2 ⟨hnode rfl, hentries⟩
  | .interval start stop _ _ =>
    obtain ⟨hstart, hstop⟩ := List.forall_mem_append.1 (List.forall_mem_cons.1 h).2
    have hrest := List.forall_mem_append.2
      ⟨hp.forall_nodes start hstart, hp.forall_nodes stop hstop⟩
    exact List.forall_mem_cons.2 ⟨hnode rfl, hrest⟩
termination_by structural e

theorem forall_allNodes (hp : Leaves q p) (es : List Expr) (h : ∀ m ∈ allNodes es, q m) :
    ∀ n ∈ allNodes (foldAll es), p n := by
  match es with
  | [] => exact nofun
  | e :: rest =>
    obtain ⟨he, hrest⟩ := List.forall_mem_append.1 h
    exact List.forall_mem_append.2 ⟨hp.forall_nodes e he, hp.forall_allNodes rest hrest⟩
termination_by structural es

theorem forall_entriesNodes (hp : Leaves q p) (entries : List (String × Expr))
    (h : ∀ m ∈ entriesNodes entries, q m) : ∀ n ∈ entriesNodes (foldEntries entries), p n := by
  match entries with
  | [] => exact nofun
  | (_, e) :: rest =>
    obtain ⟨he, hrest⟩ := List.forall_mem_append.1 h
    exact List.forall_mem_append.2
      ⟨hp.forall_nodes e he, hp.forall_entriesNodes rest hrest⟩
termination_by structural entries

end

end Leaves

theorem isNormal_fold (e : Expr) : e.fold.IsNormal := by
  have hleaves : Leaves (fun _ => True) (·.isRedex = false) := ⟨fun _ => rfl, fun _ _ h => h⟩
  exact hleaves.forall_nodes e fun _ _ => trivial

mutual

theorem fold_of_isNormal (e : Expr) (h : e.IsNormal) : e.fold = e := by
  have hparts : e.foldParts = e := by
    match e with
    | .literal _ | .field _ | .subject | .element => rfl
    | .index base key =>
      obtain ⟨hbase, hkey⟩ := List.forall_mem_append.1 (List.forall_mem_cons.1 h).2
      rw [foldParts, fold_of_isNormal base hbase, fold_of_isNormal key hkey]
    | .binary left op right =>
      obtain ⟨hleft, hright⟩ := List.forall_mem_append.1 (List.forall_mem_cons.1 h).2
      rw [foldParts, fold_of_isNormal left hleft, fold_of_isNormal right hright]
    | .unary op operand =>
      rw [foldParts, fold_of_isNormal operand (List.forall_mem_cons.1 h).2]
    | .call f args =>
      rw [foldParts, foldAll_of_isNormal args (List.forall_mem_cons.1 h).2]
    | .ternary condition yes no =>
      obtain ⟨hbefore, hno⟩ := List.forall_mem_append.1 (List.forall_mem_cons.1 h).2
      obtain ⟨hcondition, hyes⟩ := List.forall_mem_append.1 hbefore
      rw [foldParts, fold_of_isNormal condition hcondition, fold_of_isNormal yes hyes,
        fold_of_isNormal no hno]
    | .array items =>
      rw [foldParts, foldAll_of_isNormal items (List.forall_mem_cons.1 h).2]
    | .object entries =>
      rw [foldParts, foldEntries_of_isNormal entries (List.forall_mem_cons.1 h).2]
    | .interval start stop _ _ =>
      obtain ⟨hstart, hstop⟩ := List.forall_mem_append.1 (List.forall_mem_cons.1 h).2
      rw [foldParts, fold_of_isNormal start hstart, fold_of_isNormal stop hstop]
  have hirreducible : e.foldParts.isRedex = false := by
    rw [hparts]
    exact h e e.mem_nodes_self
  rw [fold_eq_foldParts hirreducible, hparts]
termination_by structural e

theorem foldAll_of_isNormal (es : List Expr) (h : ∀ n ∈ allNodes es, n.isRedex = false) :
    foldAll es = es := by
  match es with
  | [] => rfl
  | e :: rest =>
    obtain ⟨he, hrest⟩ := List.forall_mem_append.1 h
    rw [foldAll, fold_of_isNormal e he, foldAll_of_isNormal rest hrest]
termination_by structural es

theorem foldEntries_of_isNormal (entries : List (String × Expr))
    (h : ∀ n ∈ entriesNodes entries, n.isRedex = false) : foldEntries entries = entries := by
  match entries with
  | [] => rfl
  | (key, e) :: rest =>
    obtain ⟨he, hrest⟩ := List.forall_mem_append.1 h
    rw [foldEntries, fold_of_isNormal e he, foldEntries_of_isNormal rest hrest]
termination_by structural entries

end

/-- One pass is enough: a folded expression is normal, to fold it again changes nothing, and nothing
but normal expressions stays unchanged. -/
theorem fold_normalizes (e : Expr) :
    e.fold.IsNormal ∧ e.fold.fold = e.fold ∧ (e.fold = e ↔ e.IsNormal) := by
  have hnormal := isNormal_fold e
  refine ⟨hnormal, fold_of_isNormal e.fold hnormal, ?_⟩
  constructor
  · intro heq
    rwa [heq] at hnormal
  · exact fold_of_isNormal e

end RuleGraph.Expr

import Mathlib.Data.List.Destutter
import RuleGraph.Proofs.Run.Correspondence
import RuleGraph.Proofs.Run.Faults
import RuleGraph.Proofs.Run.Levels
/-!
# The path of a failure

An evaluation fails at the first node, in the order of execution, that does. If that is a decision
node, the failure may lie inside of the decision that it evaluates, and so on. The error names the
nodes on the way from the outside to the inside, equal neighbours once, and the cause is what the
last of them failed with.
-/
namespace RuleGraph

namespace RunError

def namesNode : RunError → Bool
  | inNode _ _ => true
  | _ => false

/-- A cause under the names of nodes, from the outermost to the innermost one. -/
def under (ids : List String) (cause : RunError) : RunError :=
  ids.foldr inNode cause

variable {cause : RunError}

theorem root_of_not_namesNode (h : cause.namesNode = false) : cause.root = cause := by
  cases cause <;> first | rfl | cases h

theorem root_under (h : cause.namesNode = false) (ids : List String) :
    (under ids cause).root = cause := by
  induction ids with
  | nil => exact root_of_not_namesNode h
  | cons id rest ih => exact ih

theorem within_of_not_namesNode (h : cause.namesNode = false) (id : String) :
    cause.within id = under [id] cause := by
  cases cause <;> first | rfl | cases h

theorem exists_destutter' (id : String) (ids : List String) :
    ∃ rest, ids.destutter' (· ≠ ·) id = id :: rest := by
  induction ids generalizing id with
  | nil => exact ⟨[], rfl⟩
  | cons next ids ih =>
    by_cases h : id ≠ next
    · exact ⟨_, List.destutter'_cons_pos ids h⟩
    · rw [List.destutter'_cons_neg ids h]
      exact ih id

theorem within_under (id next : String) (ids : List String) :
    (under ((next :: ids).destutter (· ≠ ·)) cause).within id =
      under ((id :: next :: ids).destutter (· ≠ ·)) cause := by
  obtain ⟨rest, hrest⟩ := exists_destutter' next ids
  rw [List.destutter_cons', List.destutter_cons', hrest]
  by_cases h : id = next
  · subst h
    rw [List.destutter'_cons_neg ids (not_not.2 rfl), hrest]
    exact if_pos rfl
  · rw [List.destutter'_cons_pos ids h, hrest]
    exact if_neg (Ne.symm h)

end RunError

theorem History.result_eq_error_iff {h : History} {d : Decision} {e : RunError} :
    h.result d = .error e ↔ h.failure = some e := by
  unfold result
  cases h.failure <;> simp

section
variable {σ : Type}

/-- The nodes in front of a node come to outcomes one after another. With the outputs of all that
are done the node gets its input, and it begins in the state that the others have left. -/
inductive Reaches (outcome : Step → Value → StateM σ (Except RunError Outcome)) (input : Value)
    (step : Step) (nodeInput : Value) (t : σ) : List Value → List Step → σ → Prop
  | here {outputs rest} (hinput : nodeInput = step.inputFrom input outputs) :
    Reaches outcome input step nodeInput t outputs (step :: rest) t
  | later {outputs first rest s o s'}
    (hdone : ((outcome first (first.inputFrom input outputs)).run s).run = (.ok o, s'))
    (h : Reaches outcome input step nodeInput t (outputs ++ [o.output]) rest s') :
    Reaches outcome input step nodeInput t outputs (first :: rest) s

variable {outcome : Step → Value → StateM σ (Except RunError Outcome)} {c : Context} {input : Value}
  {outputs : List Value} {steps : List Step} {s t s' : σ} {e : RunError}

/-- A run fails exactly with the failure of a node that it comes to. -/
theorem Context.Underway.failure_iff [Clock]
    (outcome : Step → Value → StateM σ (Except RunError Outcome))
    (h : c.Underway input outputs steps.length)
    (hsources : SourcesBefore outputs.length steps) :
    (∃ history, ((c.runHistory outcome outputs.length steps).run s).run = (history, s') ∧
        history.failure = some e) ↔
      ∃ step nodeInput t cause, Reaches outcome input step nodeInput t outputs steps s ∧
        ((outcome step nodeInput).run t).run = (.error cause, s') ∧ e = cause.within step.id := by
  induction steps generalizing c outputs s with
  | nil =>
    constructor
    · rintro ⟨_, ⟨⟩, ⟨⟩⟩
    · rintro ⟨_, _, _, _, ⟨⟩, _⟩
  | cons first rest ih =>
    obtain ⟨cause, t, ho, hrun⟩ | ⟨o, t, ho, hrun⟩ :=
      h.runHistory_cons_run outcome hsources.head rest s
    · rw [hrun]
      constructor
      · rintro ⟨_, ⟨⟩, ⟨⟩⟩
        exact ⟨first, _, s, cause, .here rfl, ho, rfl⟩
      · rintro ⟨step, nodeInput, t', cause', hreaches, hfails, rfl⟩
        cases hreaches with
        | here hinput =>
          subst hinput
          cases ho.symm.trans hfails
          exact ⟨_, rfl, rfl⟩
        | later hdone => cases ho.symm.trans hdone
    · have hlength : (outputs ++ [o.output]).length = outputs.length + 1 := by simp
      have hnext := ih (s := t) (h.finish first (first.inputFrom input outputs) o)
      rw [hlength] at hnext
      have hnext := hnext hsources.tail
      rw [hrun]
      constructor
      · rintro ⟨_, hmore, hfailure⟩
        obtain ⟨rfl, rfl⟩ := Prod.mk.inj hmore
        obtain ⟨step, nodeInput, t', cause, hreaches, hfails⟩ := hnext.1 ⟨_, rfl, hfailure⟩
        exact ⟨step, nodeInput, t', cause, .later ho hreaches, hfails⟩
      · rintro ⟨step, nodeInput, t', cause, hreaches, hfails, rfl⟩
        cases hreaches with
        | here hinput =>
          subst hinput
          cases ho.symm.trans hfails
        | later hdone hreaches =>
          cases ho.symm.trans hdone
          obtain ⟨history, hmore, hfailure⟩ :=
            hnext.2 ⟨step, nodeInput, t', cause, hreaches, hfails, rfl⟩
          rw [hmore]
          exact ⟨_, rfl, hfailure⟩

variable (host : Host (StateM σ)) (options : Options)

/-- A node is what an evaluation of a decision at a depth first comes to that fails, in the state
`t` that is left then. -/
def Decision.Begins [Clock] (iteration : UInt8) (p : Decision) (input : Value) (s : σ) (step : Step)
    (nodeInput : Value) (t : σ) : Prop :=
  Reaches (Step.outcome host (evaluateAt host options (deeper iteration)) iteration) input step
    nodeInput t [] p.steps s

/-- An evaluation fails in the node at the end of a way down, of which all other nodes evaluate the
decision that the next one is of. The cause is an error of this node itself, of the resolver, or of
a decision that lies too deep. -/
inductive Decision.FailsAlong [Clock] :
    UInt8 → Decision → Value → σ → List String → RunError → σ → Prop
  | own {iteration p input s step nodeInput t cause s'}
    (hbegins : p.Begins host options iteration input s step nodeInput t)
    (hprogram : ∀ key, step.program ≠ .decision key)
    (hfails : ((step.outcome host (evaluateAt host options (deeper iteration)) iteration
      nodeInput).run t).run = (.error cause, s')) :
    FailsAlong iteration p input s [step.id] cause s'
  | noResolver {iteration p input s step nodeInput t key}
    (hbegins : p.Begins host options iteration input s step nodeInput t)
    (hprogram : step.program = .decision key) (hresolver : host.resolver = none) :
    FailsAlong iteration p input s [step.id]
      (.resolution key "no decision resolver is configured") t
  | unresolved {iteration p input s step nodeInput t key resolve cause s'}
    (hbegins : p.Begins host options iteration input s step nodeInput t)
    (hprogram : step.program = .decision key) (hresolver : host.resolver = some resolve)
    (hfails : ((resolve key).run t).run = (.error cause, s')) :
    FailsAlong iteration p input s [step.id] cause s'
  | tooDeep {iteration p input s step nodeInput t key resolve child s'}
    (hbegins : p.Begins host options iteration input s step nodeInput t)
    (hprogram : step.program = .decision key) (hresolver : host.resolver = some resolve)
    (hchild : ((resolve key).run t).run = (.ok child, s'))
    (hdeep : options.limit ≤ deeper iteration) :
    FailsAlong iteration p input s [step.id] (.depthExceeded options.limit) s'
  | inside {iteration p input s step nodeInput t key resolve child t' ids cause s'}
    (hbegins : p.Begins host options iteration input s step nodeInput t)
    (hprogram : step.program = .decision key) (hresolver : host.resolver = some resolve)
    (hchild : ((resolve key).run t).run = (.ok child, t'))
    (hdeep : deeper iteration < options.limit)
    (h : FailsAlong (deeper iteration) child nodeInput t' ids cause s') :
    FailsAlong iteration p input s (step.id :: ids) cause s'

variable (inv : σ → Prop)

/-- A host that, as long as an invariant holds, keeps it, gives compiled decisions and fails without
naming a node when it looks up a decision. -/
def Host.Supplies (host : Host (StateM σ)) : Prop :=
  ∀ resolve, host.resolver = some resolve → ∀ key s r s', inv s →
    ((resolve key).run s).run = (r, s') → inv s' ∧ (∀ child, r = .ok child → child.IsCompiled) ∧
      ∀ cause, r = .error cause → cause.namesNode = false

def Correspondence.keeping : Correspondence (StateM σ) (StateM σ) :=
  .onStates fun s t => s = t ∧ inv s

variable {host options inv} {iteration : UInt8} {step : Step} {nodeInput : Value} {t : σ}
  {cause : RunError}

theorem Host.Supplies.keeping (h : host.Supplies inv) :
    (Correspondence.keeping inv).Hosts host host := by
  refine ⟨rfl, ?_⟩
  cases hresolver : host.resolver with
  | none => exact .none
  | some resolve =>
    refine .some fun key => ?_
    rintro s _ ⟨rfl, hs⟩
    exact ⟨rfl, rfl, (h resolve hresolver key s _ _ hs rfl).1⟩

theorem Step.outcome_keeps [Clock] (hhost : host.Supplies inv) (hs : inv s)
    {r : Except RunError Outcome}
    (h : ((step.outcome host (Decision.evaluateAt host options (deeper iteration)) iteration
      nodeInput).run s).run = (r, s')) : inv s' := by
  have hnested (child : Decision) (input : Value) : (Correspondence.keeping inv).Holds
      (child.evaluateAt host options (deeper iteration) input)
      (child.evaluateAt host options (deeper iteration) input) :=
    Correspondence.holds_evaluateWithin hhost.keeping options _ _ child input
  have houtcome := Correspondence.holds_outcome hhost.keeping hnested iteration step nodeInput
  obtain ⟨-, -, hkept⟩ := houtcome s s ⟨rfl, hs⟩
  rwa [h] at hkept

theorem Reaches.keeps (h : Reaches outcome input step nodeInput t outputs steps s)
    (houtcome : ∀ step input s r s', inv s → ((outcome step input).run s).run = (r, s') → inv s')
    (hs : inv s) : inv t := by
  induction h with
  | here => exact hs
  | later hdone _ ih => exact ih (houtcome _ _ _ _ _ hs hdone)

theorem Step.namesNode_of_outcome {nested : Decision → Value → StateM σ (Except RunError Result)}
    (hprogram : ∀ key, step.program ≠ .decision key)
    (h : ((step.outcome host nested iteration nodeInput).run t).run = (.error cause, s')) :
    cause.namesNode = false := by
  have hmap {ε : Type} {f : ε → RunError} {x : Except ε Outcome}
      (hf : ∀ e, (f e).namesNode = false) (hx : x.mapError f = .error cause) :
      cause.namesNode = false := by
    obtain ⟨e, -, rfl⟩ := mapError_eq_error.1 hx
    exact hf e
  unfold outcome outcomeBy at h
  cases hkind : step.program with
  | decision key => exact absurd hkind (hprogram key)
  | input schema | output =>
    rw [hkind] at h
    cases h
  | table _ | expressions _ _ | function _ =>
    rw [hkind] at h
    exact hmap (fun _ => rfl) (congrArg Prod.fst h)
  | custom component config =>
    rw [hkind] at h
    have hcustom := congrArg Prod.fst h
    cases hhandler : host.handler with
    | none =>
      rw [hhandler] at hcustom
      cases hcustom
      rfl
    | some handle =>
      rw [hhandler] at hcustom
      exact hmap (fun _ => rfl) hcustom

theorem decisionOutcome_eq_error_iff
    {resolver : Option (String → StateM σ (Except RunError Decision))}
    {nested : Decision → Value → StateM σ (Except RunError Result)} {key : String} :
    ((decisionOutcome resolver nested key nodeInput).run t).run = (.error cause, s') ↔
      (resolver = none ∧ cause = .resolution key "no decision resolver is configured" ∧ s' = t) ∨
      ∃ resolve, resolver = some resolve ∧
        (((resolve key).run t).run = (.error cause, s') ∨
          ∃ child t', ((resolve key).run t).run = (.ok child, t') ∧
            ((nested child nodeInput).run t').run = (.error cause, s')) := by
  cases resolver with
  | none =>
    simp [decisionOutcome, eq_comm]
  | some resolve =>
    cases hfound : ((resolve key).run t).run with
    | mk found t' =>
      cases found with
      | error e => simp [decisionOutcome, hfound]
      | ok child =>
        cases hnested : ((nested child nodeInput).run t').run with
        | mk r u => cases r <;> simp [decisionOutcome, hfound, hnested]

namespace Decision
variable [Clock] {p : Decision} {ids : List String}

theorem FailsAlong.ne_nil (h : p.FailsAlong host options iteration input s ids cause s') :
    ids ≠ [] := by
  cases h <;> exact List.cons_ne_nil _ _

/-- An evaluation below the limit fails with the failure of the first node that does. -/
theorem evaluateAt_eq_error_iff_begins (hp : p.IsCompiled) (hlt : iteration < options.limit) :
    ((p.evaluateAt host options iteration input).run s).run = (.error e, s') ↔
      ∃ step nodeInput t cause, p.Begins host options iteration input s step nodeInput t ∧
        ((step.outcome host (evaluateAt host options (deeper iteration)) iteration
          nodeInput).run t).run = (.error cause, s') ∧ e = cause.within step.id := by
  obtain ⟨c, d, key, hcompile⟩ := hp
  let outcome := Step.outcome host (evaluateAt host options (deeper iteration)) iteration
  have hsources := (Compiler.wellFormed_of_compile hcompile).sourcesBefore
  refine Iff.trans ?_ ((Context.underway_initial input iteration options _).failure_iff outcome
    hsources)
  rw [evaluateAt_eq_history hlt]
  cases hhistory : ((p.history outcome options iteration input).run s).run with
  | mk history u =>
    have hrun : ((History.result p <$> p.history outcome options iteration input).run s).run =
        (history.result p, u) := by
      simp [hhistory]
    rw [hrun, Prod.mk.injEq, History.result_eq_error_iff]
    constructor
    · rintro ⟨hfails, rfl⟩
      exact ⟨history, hhistory, hfails⟩
    · rintro ⟨history', hhistory', hfails⟩
      cases hhistory.symm.trans hhistory'
      exact ⟨hfails, rfl⟩

/-- A failure of a decision node comes from the host, from the limit, or from inside of the decision
that the host gives. -/
theorem outcome_eq_error_iff_of_decision {key : String} (hprogram : step.program = .decision key) :
    ((step.outcome host (evaluateAt host options (deeper iteration)) iteration nodeInput).run
        t).run = (.error cause, s') ↔
      (host.resolver = none ∧ cause = .resolution key "no decision resolver is configured" ∧
        s' = t) ∨
      ∃ resolve, host.resolver = some resolve ∧
        (((resolve key).run t).run = (.error cause, s') ∨
          ∃ child t', ((resolve key).run t).run = (.ok child, t') ∧
            ((options.limit ≤ deeper iteration ∧ cause = .depthExceeded options.limit ∧ s' = t') ∨
              (deeper iteration < options.limit ∧
                ((child.evaluateAt host options (deeper iteration) nodeInput).run t').run =
                  (.error cause, s')))) := by
  have hnested (child : Decision) (t' : σ) :
      ((child.evaluateAt host options (deeper iteration) nodeInput).run t').run =
          (.error cause, s') ↔
        (options.limit ≤ deeper iteration ∧ cause = .depthExceeded options.limit ∧ s' = t') ∨
          (deeper iteration < options.limit ∧
            ((child.evaluateAt host options (deeper iteration) nodeInput).run t').run =
              (.error cause, s')) := by
    by_cases hdeep : options.limit ≤ deeper iteration
    · simp [evaluateAt_of_limit_le host hdeep, hdeep, UInt8.not_lt.2 hdeep, eq_comm]
    · simp [hdeep, UInt8.not_le.1 hdeep]
  simp only [← hnested]
  rw [Step.outcome_of_decision hprogram]
  exact decisionOutcome_eq_error_iff

variable (hhost : host.Supplies inv)
include hhost

theorem Begins.keeps (h : p.Begins host options iteration input s step nodeInput t) (hs : inv s) :
    inv t :=
  Reaches.keeps h (fun _ _ _ _ _ hs h => Step.outcome_keeps hhost hs h) hs

theorem FailsAlong.namesNode (h : p.FailsAlong host options iteration input s ids cause s')
    (hs : inv s) : cause.namesNode = false := by
  induction h with
  | own _ hprogram hfails => exact Step.namesNode_of_outcome hprogram hfails
  | noResolver | tooDeep => rfl
  | unresolved hbegins _ hresolver hfails =>
    obtain ⟨-, -, hcause⟩ := hhost _ hresolver _ _ _ _ (hbegins.keeps hhost hs) hfails
    exact hcause _ rfl
  | inside hbegins _ hresolver hchild _ _ ih =>
    exact ih (hhost _ hresolver _ _ _ _ (hbegins.keeps hhost hs) hchild).1

theorem FailsAlong.run_eq (h : p.FailsAlong host options iteration input s ids cause s')
    (hp : p.IsCompiled) (hlt : iteration < options.limit) (hs : inv s) :
    ((p.evaluateAt host options iteration input).run s).run =
      (.error (.under (ids.destutter (· ≠ ·)) cause), s') := by
  have hcause := h.namesNode hhost hs
  induction h with
  | own hbegins _ hfails =>
    exact (evaluateAt_eq_error_iff_begins hp hlt).2 ⟨_, _, _, _, hbegins, hfails,
      (RunError.within_of_not_namesNode hcause _).symm⟩
  | noResolver hbegins hprogram hresolver =>
    exact (evaluateAt_eq_error_iff_begins hp hlt).2 ⟨_, _, _, _, hbegins,
      (outcome_eq_error_iff_of_decision hprogram).2 (.inl ⟨hresolver, rfl, rfl⟩), rfl⟩
  | unresolved hbegins hprogram hresolver hfails =>
    exact (evaluateAt_eq_error_iff_begins hp hlt).2 ⟨_, _, _, _, hbegins,
      (outcome_eq_error_iff_of_decision hprogram).2 (.inr ⟨_, hresolver, .inl hfails⟩),
      (RunError.within_of_not_namesNode hcause _).symm⟩
  | tooDeep hbegins hprogram hresolver hchild hdeep =>
    exact (evaluateAt_eq_error_iff_begins hp hlt).2 ⟨_, _, _, _, hbegins,
      (outcome_eq_error_iff_of_decision hprogram).2
        (.inr ⟨_, hresolver, .inr ⟨_, _, hchild, .inl ⟨hdeep, rfl, rfl⟩⟩⟩), rfl⟩
  | inside hbegins hprogram hresolver hchild hdeep h ih =>
    obtain ⟨ht', hcompiled, -⟩ := hhost _ hresolver _ _ _ _ (hbegins.keeps hhost hs) hchild
    obtain ⟨next, rest, rfl⟩ := List.exists_cons_of_ne_nil h.ne_nil
    exact (evaluateAt_eq_error_iff_begins hp hlt).2 ⟨_, _, _, _, hbegins,
      (outcome_eq_error_iff_of_decision hprogram).2
        (.inr ⟨_, hresolver, .inr ⟨_, _, hchild, .inr
          ⟨hdeep, ih (hcompiled _ rfl) hdeep ht' hcause⟩⟩⟩),
      (RunError.within_under _ next rest).symm⟩

/-- An evaluation that fails does so along a way down. -/
theorem exists_failsAlong (hp : p.IsCompiled) (hlt : iteration < options.limit) (hs : inv s)
    (h : ((p.evaluateAt host options iteration input).run s).run = (.error e, s')) :
    ∃ ids cause, p.FailsAlong host options iteration input s ids cause s' := by
  -- Each level of decisions comes one nearer to the limit.
  induction hn : options.limit.toNat - iteration.toNat generalizing iteration p input s e with
  | zero =>
    have := UInt8.lt_iff_toNat_lt.1 hlt
    omega
  | succ n ih =>
    obtain ⟨step, nodeInput, t, cause, hbegins, hfails, -⟩ :=
      (evaluateAt_eq_error_iff_begins hp hlt).1 h
    by_cases hprogram : ∃ key, step.program = .decision key
    · obtain ⟨key, hprogram⟩ := hprogram
      obtain ⟨hresolver, -, rfl⟩ | ⟨resolve, hresolver, hunresolved |
          ⟨child, t', hchild, ⟨hdeep, -, rfl⟩ | ⟨hdeep, hnested⟩⟩⟩ :=
        (outcome_eq_error_iff_of_decision hprogram).1 hfails
      · exact ⟨_, _, .noResolver hbegins hprogram hresolver⟩
      · exact ⟨_, _, .unresolved hbegins hprogram hresolver hunresolved⟩
      · exact ⟨_, _, .tooDeep hbegins hprogram hresolver hchild hdeep⟩
      · obtain ⟨ht', hcompiled, -⟩ := hhost _ hresolver _ _ _ _ (hbegins.keeps hhost hs) hchild
        have hlevels := toNat_deeper hlt
        obtain ⟨ids, root, halong⟩ := ih (hcompiled _ rfl) hdeep ht' hnested (by omega)
        exact ⟨_, _, .inside hbegins hprogram hresolver hchild hdeep halong⟩
    · exact ⟨_, _, .own hbegins (not_exists.1 hprogram) hfails⟩

/-- An evaluation below the limit fails exactly along a way down. The error names the nodes on this
way from the outside to the inside, equal neighbours once, and comes down to its cause. -/
theorem evaluateAt_fails_along (hp : p.IsCompiled) (hlt : iteration < options.limit)
    (hs : inv s) :
    ((p.evaluateAt host options iteration input).run s).run = (.error e, s') ↔
      ∃ ids cause, p.FailsAlong host options iteration input s ids cause s' ∧
        e = .under (ids.destutter (· ≠ ·)) cause ∧ e.root = cause := by
  constructor
  · intro h
    obtain ⟨ids, cause, halong⟩ := exists_failsAlong hhost hp hlt hs h
    cases h.symm.trans (halong.run_eq hhost hp hlt hs)
    exact ⟨ids, cause, halong, rfl, RunError.root_under (halong.namesNode hhost hs) _⟩
  · rintro ⟨ids, cause, halong, rfl, -⟩
    exact halong.run_eq hhost hp hlt hs

end Decision

namespace Decision

/-- Passes a request on to another decision. -/
def relayDocument (id : String) : Document where
  nodes := [
    ⟨"in", "Request", .input none⟩,
    ⟨id, "Relay", .decision "next"⟩,
    ⟨"out", "Response", .output⟩]
  edges := [.between "in" id, .between id "out"]

def relayDecision (id : String) : Decision where
  steps := [
    ⟨"in", "Request", [], .input none⟩,
    ⟨id, "Relay", [0], .decision "next"⟩,
    ⟨"out", "Response", [1], .output⟩]
  outputs := [2]
  key := none
  edgeCount := 2
  version := "0.1.0"

def compilesRelay (id : String) : Bool :=
  match Compiler.standard.compile (relayDocument id) none with
  | .ok ⟨[⟨"in", "Request", [], .input none⟩, ⟨found, "Relay", [0], .decision "next"⟩,
      ⟨"out", "Response", [1], .output⟩], [2], none, 2, "0.1.0"⟩ => found == id
  | _ => false

theorem isCompiled_relayDecision {id : String} (h : compilesRelay id) :
    (relayDecision id).IsCompiled := by
  refine ⟨.standard, relayDocument id, none, ?_⟩
  unfold compilesRelay at h
  split at h
  · next hcompile =>
    rw [hcompile, eq_of_beq h]
    rfl
  · cases h

/-- The next decision is one that asks for itself, until the limit is reached. -/
theorem relayDecision_fails_along :
    let host := passingHost (relayDecision "again")
    host.Supplies (fun _ => True) ∧ (relayDecision "outer").IsCompiled ∧ (0 : UInt8) < 3 ∧
      (relayDecision "outer").FailsAlong host ⟨false, 3⟩ 0 .empty 0 ["outer", "again", "again"]
        (.depthExceeded 3) 3 ∧
      (((relayDecision "outer").evaluateAt host ⟨false, 3⟩ 0 .empty).run 0).run =
        (.error (.inNode "outer" (.inNode "again" (.depthExceeded 3))), 3) := by
  intro host
  have hcompiled : (relayDecision "outer").IsCompiled ∧ (relayDecision "again").IsCompiled :=
    ⟨isCompiled_relayDecision (by decide +kernel), isCompiled_relayDecision (by decide +kernel)⟩
  have hhost : host.Supplies fun _ => True := by
    rintro _ ⟨⟩ key s _ _ - ⟨⟩
    refine ⟨trivial, ?_, fun _ h => by cases h⟩
    rintro _ ⟨⟩
    exact hcompiled.2
  -- The input node comes first. After it the node is reached that asks for the next decision.
  have hbegins (id : String) (iteration : UInt8) (s : Nat) :
      (relayDecision id).Begins host ⟨false, 3⟩ iteration .empty s ⟨id, "Relay", [0],
        .decision "next"⟩ .empty s := by
    refine .later (o := .plain .empty) ?_ (.here rfl)
    rfl
  have halong : (relayDecision "outer").FailsAlong host ⟨false, 3⟩ 0 .empty 0
      ["outer", "again", "again"] (.depthExceeded 3) 3 :=
    .inside (hbegins "outer" 0 0) rfl rfl rfl (by decide)
      (.inside (hbegins "again" 1 1) rfl rfl rfl (by decide)
        (.tooDeep (hbegins "again" 2 2) rfl rfl rfl (by decide)))
  exact ⟨hhost, hcompiled.1, by decide, halong,
    (evaluateAt_fails_along hhost hcompiled.1 (by decide) trivial).2 ⟨_, _, halong, rfl, rfl⟩⟩

end Decision

end
end RuleGraph

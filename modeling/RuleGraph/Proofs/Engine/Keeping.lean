import RuleGraph.Engine.Basic
import RuleGraph.Proofs.Run.Faults
/-!
# Engines without faults

All that an engine keeps was compiled, so decision nodes come to compiled decisions only. Whatever
the loader and the handler do, an evaluation does not fail with a fault.
-/
namespace RuleGraph.Engine

def KeepsCompiled (engine : Engine) : Prop :=
  ∀ key d, Members.get? key engine.kept = some d → d.decision.IsCompiled

/-- An action after which an engine still keeps compiled decisions only, and what comes of it. -/
def Keeps {α : Type} (x : Action α) (P : α → Prop) : Prop :=
  ∀ engine r engine', engine.KeepsCompiled → (x.run.run engine).run = (r, engine') →
    engine'.KeepsCompiled ∧ ∀ a, r = .ok a → P a

section
variable {α β : Type} {P : α → Prop} {Q : β → Prop}

theorem keeps_pure {a : α} (h : P a) : Keeps (pure a) P := by
  rintro engine _ _ hengine ⟨⟩
  refine ⟨hengine, ?_⟩
  rintro _ ⟨⟩
  exact h

theorem keeps_throw (e : EngineError) : Keeps (throw e) P := by
  rintro engine _ _ hengine ⟨⟩
  exact ⟨hengine, nofun⟩

theorem keeps_get : Keeps (getThe Engine) KeepsCompiled := by
  rintro engine _ _ hengine ⟨⟩
  refine ⟨hengine, ?_⟩
  rintro _ ⟨⟩
  exact hengine

theorem keeps_set {engine : Engine} (h : engine.KeepsCompiled) :
    Keeps (set engine) fun _ => True := by
  rintro before _ _ - ⟨⟩
  exact ⟨h, fun _ _ => trivial⟩

theorem Keeps.bind {x : Action α} {f : α → Action β} (hx : Keeps x P)
    (hf : ∀ a, P a → Keeps (f a) Q) : Keeps (x >>= f) Q := by
  intro engine r engine' hengine hrun
  rw [ExceptT.run_bind, StateT.run_bind, Id.run_bind] at hrun
  cases h : (x.run.run engine).run with
  | mk a between =>
    obtain ⟨hbetween, ha⟩ := hx engine a between hengine h
    rw [h] at hrun
    cases a with
    | error e =>
      cases hrun
      exact ⟨hbetween, nofun⟩
    | ok a => exact hf a (ha a rfl) between r engine' hbetween hrun

end

theorem keeps_load (key : String) : Keeps (load key) fun _ => True := by
  refine keeps_get.bind fun engine hengine => ?_
  cases engine.loader with
  | none => exact keeps_throw _
  | some loader =>
    refine (keeps_set ?_).bind fun _ _ => ?_
    · exact hengine
    · cases loader key with
      | error f => exact keeps_throw _
      | ok document => exact keeps_pure trivial

theorem keeps_number {d : Decision} (h : d.IsCompiled) :
    Keeps (number d) fun compiled => compiled.decision.IsCompiled := by
  refine keeps_get.bind fun engine hengine => (keeps_set ?_).bind fun _ _ => keeps_pure h
  exact hengine

theorem keeps_keep (key : String) {d : Compiled} (h : d.decision.IsCompiled) :
    Keeps (keep key d) fun _ => True := by
  refine keeps_get.bind fun engine hengine => ?_
  split
  · apply keeps_set
    intro other found hfound
    by_cases hother : other = key
    · rw [hother, Members.get?_insert_self] at hfound
      cases hfound
      exact h
    · rw [Members.get?_insert_of_ne hother] at hfound
      exact hengine other found hfound
  · exact keeps_pure trivial

theorem isCompiled_of_compileBytes {c : Compiler} {bytes : List UInt8} {key : Option String}
    {d : Decision} (h : c.compileBytes bytes key = .ok d) : d.IsCompiled := by
  unfold Compiler.compileBytes at h
  split at h
  · exact ⟨c, _, key, h⟩
  · cases h

theorem keeps_decision (key : String) :
    Keeps (decision key) fun compiled => compiled.decision.IsCompiled := by
  refine keeps_get.bind fun engine hengine => ?_
  cases hkept : Members.get? key engine.kept with
  | some d => exact keeps_pure (hengine key d hkept)
  | none =>
    refine (keeps_load key).bind fun bytes _ => ?_
    cases hd : Compiler.standard.compileBytes bytes (some key) with
    | error cause => exact keeps_throw _
    | ok d =>
      refine (keeps_number (isCompiled_of_compileBytes hd)).bind fun compiled hcompiled => ?_
      exact (keeps_keep key hcompiled).bind fun _ _ => keeps_pure hcompiled

section
variable {α β : Type} {x : Action α} {engine engine' : Engine}

theorem run_get_bind (f : Engine → Action α) (engine : Engine) :
    ((getThe Engine >>= f).run.run engine).run = ((f engine).run.run engine).run := rfl

theorem run_set_bind (f : Unit → Action α) (after : Engine) :
    ((set after >>= f).run.run engine).run = ((f ()).run.run after).run := rfl

theorem run_lift_bind (x : StateM Engine α) (f : α → Action β) (engine : Engine) :
    (((liftM x : Action α) >>= f).run.run engine).run =
      ((f (x.run engine).run.1).run.run (x.run engine).run.2).run := rfl

theorem run_bind_of_ok {a : α} (h : (x.run.run engine).run = (.ok a, engine'))
    (f : α → Action β) : ((x >>= f).run.run engine).run = ((f a).run.run engine').run := by
  rw [ExceptT.run_bind, StateT.run_bind, Id.run_bind, h]

theorem run_bind_of_error {e : EngineError} (h : (x.run.run engine).run = (.error e, engine'))
    (f : α → Action β) : ((x >>= f).run.run engine).run = (.error e, engine') := by
  rw [ExceptT.run_bind, StateT.run_bind, Id.run_bind, h]
  rfl

theorem run_map {r : Except EngineError α} (h : (x.run.run engine).run = (r, engine'))
    (f : α → β) : ((do return f (← x) : Action β).run.run engine).run = (r.map f, engine') := by
  cases r with
  | error e => exact run_bind_of_error h _
  | ok a => exact run_bind_of_ok h _

end

theorem resolve_spec {key : String} {engine engine' : Engine} (hengine : engine.KeepsCompiled)
    {r : Except RunError Decision} (h : ((resolve key).run engine).run = (r, engine')) :
    engine'.KeepsCompiled ∧ (∀ p, r = .ok p → p.IsCompiled) ∧ ∀ e, r = .error e → ¬e.IsFault := by
  cases hfound : ((decision key).run.run engine).run with
  | mk found after =>
    obtain ⟨hafter, hcompiled⟩ := keeps_decision key engine found after hengine hfound
    cases found with
    | ok d =>
      have hr : (Except.ok d.decision, after) = (r, engine') := by
        simpa [resolve, hfound] using h
      cases hr
      refine ⟨hafter, ?_, nofun⟩
      rintro _ ⟨⟩
      exact hcompiled d rfl
    | error e =>
      have hr : (Except.error (.resolution key e.resolutionMessage), after) = (r, engine') := by
        simpa [resolve, hfound] using h
      cases hr
      refine ⟨hafter, nofun, ?_⟩
      rintro _ ⟨⟩ ⟨_, ⟨⟩⟩

theorem serves (handler : Option Handler) : Host.Serves KeepsCompiled ⟨handler, some resolve⟩ := by
  rintro _ ⟨⟩ key
  constructor
  · intro s r s' hs h
    obtain ⟨hs', -, herror⟩ := resolve_spec hs h
    exact ⟨hs', herror⟩
  · intro s child s' hs h
    exact (resolve_spec hs h).2.1 child rfl

theorem run_evaluate [Clock] (d : Compiled) (options : Options) (context : Value)
    (engine : Engine) :
    let result := ((d.decision.evaluate ⟨engine.handler, some resolve⟩ options
      context.normalized).run engine).run
    ((evaluate d options context).run.run engine).run = (result.1.mapError .run, result.2) := by
  dsimp only
  unfold evaluate
  rw [run_get_bind, run_lift_bind]
  generalize StateT.run _ engine = result
  obtain ⟨r, after⟩ := result
  cases r <;> rfl

/-- An engine that keeps compiled decisions only goes on to do so and does not fail with a fault. -/
theorem evaluate_faultless [Clock] {d : Compiled} (hd : d.decision.IsCompiled) (options : Options)
    (context : Value) {engine engine' : Engine} (hengine : engine.KeepsCompiled)
    {r : Except EngineError Result}
    (h : ((evaluate d options context).run.run engine).run = (r, engine')) :
    engine'.KeepsCompiled ∧ ∀ e, r = .error (.run e) → ¬e.IsFault := by
  have hrun := run_evaluate d options context engine
  rw [h] at hrun
  obtain ⟨rfl, rfl⟩ := Prod.mk.inj hrun
  obtain ⟨hafter, hfault⟩ := Decision.evaluateWithin_faultless (serves engine.handler) hd _ _
    engine _ _ hengine rfl
  refine ⟨hafter, fun e he => ?_⟩
  obtain ⟨_, hcause, ⟨⟩⟩ := mapError_eq_error.1 he
  exact hfault e hcause

end RuleGraph.Engine

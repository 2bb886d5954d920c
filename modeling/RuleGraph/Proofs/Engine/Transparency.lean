import RuleGraph.Proofs.Engine.Keeping
import RuleGraph.Proofs.Run.Correspondence
/-!
# Keeping decisions is transparent

Whether an engine keeps what it has compiled does not show in its answers. What it keeps are the
decisions of the keys that it was asked for, by its callers or by decision nodes, as far as they
could be loaded and compiled.
-/
namespace RuleGraph.Engine

/-- What a caller can ask for. Evaluations without options have those of the configuration. -/
inductive Call where
  | get (key : String)
  | evaluate (key : String) (options : Option Options) (context : Value)
  | create (document : List UInt8)
  | run (d : Compiled) (options : Option Options) (context : Value)

/-- What a caller gets. Which compilation made a decision is left out. -/
inductive Answer where
  | decision (d : Decision)
  | result (r : Result)

def evaluation [Clock] (d : Compiled) (options : Option Options) (context : Value) :
    Action Answer := do
  let defaults := (← getThe Engine).config.options
  return .result (← evaluate d (options.getD defaults) context)

def Call.perform [Clock] : Call → Action Answer
  | get key => do return .decision (← decision key).decision
  | evaluate key options context => do evaluation (← decision key) options context
  | create document => do return .decision (← compile document).decision
  | run d options context => evaluation d options context

/-- Calls one after another, with all their answers. -/
def performAll [Clock] (calls : List Call) : StateM Engine (List (Except EngineError Answer)) :=
  calls.mapM fun call => call.perform.run

def loaded (loader : Option Loader) (key : String) : Except EngineError (List UInt8) :=
  match loader with
  | none => .error (.noLoader key)
  | some load => (load key).mapError fun f => .load key f.message

/-- The decision of a key, loaded and compiled anew. -/
def found (loader : Option Loader) (key : String) : Except EngineError Decision := do
  let document ← loaded loader key
  (Compiler.standard.compileBytes document (some key)).mapError (.invalid key)

theorem found_eq_ok {loader : Option Loader} {key : String} {d : Decision} :
    found loader key = .ok d ↔ ∃ load document, loader = some load ∧ load key = .ok document ∧
      Compiler.standard.compileBytes document (some key) = .ok d := by
  cases loader with
  | none => simp [found, loaded]
  | some load => simp [found, loaded, bind_eq_ok, mapError_eq_ok]

variable (config : Config) (loader : Option Loader) (handler : Option Handler)

/-- Finds the decision of a key, and notes the key. -/
def ask (key : String) : StateM (List String) (Except EngineError Decision) :=
  fun asked => (found loader key, asked ++ [key])

theorem ask_bind {α : Type}
    (f : Except EngineError Decision → StateM (List String) α) (key : String)
    (asked : List String) : ((ask loader key >>= f).run asked).run =
      ((f (found loader key)).run (asked ++ [key])).run := rfl

/-- A host that notes the keys of the decision nodes that are evaluated. -/
def askingHost : Host (StateM (List String)) where
  handler
  resolver := some fun key => do
    return (← ask loader key).mapError fun e => .resolution key e.resolutionMessage

/-- Evaluates a decision, and notes the keys that it asks for. -/
def askingResult [Clock] (d : Decision) (options : Option Options) (context : Value) :
    StateM (List String) (Except EngineError Answer) := do
  let r ← d.evaluate (askingHost loader handler) (options.getD config.options) context.normalized
  return (r.mapError .run).map .result

/-- The answer to a call that nothing is kept for. The keys that it asks for are noted. -/
def Call.answer [Clock] : Call → StateM (List String) (Except EngineError Answer)
  | get key => do return (← ask loader key).map .decision
  | evaluate key options context => do
    match ← ask loader key with
    | .error e => return .error e
    | .ok d => askingResult config loader handler d options context
  | create document =>
    return ((Compiler.standard.compileBytes document none).mapError .compile).map .decision
  | run d options context => askingResult config loader handler d.decision options context

def answerAll [Clock] (calls : List Call) :
    StateM (List String) (List (Except EngineError Answer)) :=
  calls.mapM fun call => call.answer config loader handler

/-- An engine that keeps the decisions of the keys that were asked for, if it keeps any. -/
structure KeepsAsked (engine : Engine) (asked : List String) : Prop where
  config_eq : engine.config = config
  loader_eq : engine.loader = loader
  handler_eq : engine.handler = handler
  sorted : Members.Sorted engine.kept
  kept_iff : ∀ key d, (∃ serial, Members.get? key engine.kept = some ⟨serial, d⟩) ↔
    config.caches = true ∧ key ∈ asked ∧ found loader key = .ok d

variable {config loader handler} {engine : Engine} {asked : List String}

theorem keepsAsked_create : KeepsAsked config loader handler (create config loader handler) [] where
  config_eq := rfl
  loader_eq := rfl
  handler_eq := rfl
  sorted := .nil
  kept_iff key d := by simp [create, Members.get?]

namespace KeepsAsked
variable (h : KeepsAsked config loader handler engine asked) {key : String} {d : Decision}
include h

theorem counted (loads compilations : Nat) :
    KeepsAsked config loader handler { engine with loads, compilations } asked :=
  ⟨h.config_eq, h.loader_eq, h.handler_eq, h.sorted, h.kept_iff⟩

theorem asked_again (hkey : config.caches = true → (∃ d, found loader key = .ok d) → key ∈ asked) :
    KeepsAsked config loader handler engine (asked ++ [key]) where
  config_eq := h.config_eq
  loader_eq := h.loader_eq
  handler_eq := h.handler_eq
  sorted := h.sorted
  kept_iff other d := by
    rw [h.kept_iff, List.mem_append, List.mem_singleton]
    constructor
    · rintro ⟨hcaches, hasked, hd⟩
      exact ⟨hcaches, .inl hasked, hd⟩
    · rintro ⟨hcaches, hasked | rfl, hd⟩
      · exact ⟨hcaches, hasked, hd⟩
      · exact ⟨hcaches, hkey hcaches ⟨d, hd⟩, hd⟩

theorem inserted (hcaches : config.caches = true) (hd : found loader key = .ok d) (serial : Nat) :
    KeepsAsked config loader handler
      { engine with kept := Members.insert key ⟨serial, d⟩ engine.kept } (asked ++ [key]) where
  config_eq := h.config_eq
  loader_eq := h.loader_eq
  handler_eq := h.handler_eq
  sorted := h.sorted.insert key _
  kept_iff other d' := by
    rw [List.mem_append, List.mem_singleton]
    by_cases hother : other = key
    · subst hother
      simp [Members.get?_insert_self, hcaches, hd]
    · simp only [Members.get?_insert_of_ne hother, h.kept_iff, hother, or_false]

theorem kept_eq_nil (hcaches : config.caches = false) : engine.kept = [] := by
  cases hkept : engine.kept with
  | nil => rfl
  | cons m rest =>
    obtain ⟨key, serial, d⟩ := m
    have hfound : ∃ serial, Members.get? key engine.kept = some ⟨serial, d⟩ :=
      ⟨serial, by simp [hkept, Members.get?]⟩
    rw [((h.kept_iff key d).1 hfound).1] at hcaches
    cases hcaches

end KeepsAsked

theorem run_answer {engine' : Engine} {x : Action Compiled} {r : Except EngineError Compiled}
    (h : (x.run.run engine).run = (r, engine')) :
    ((do return .decision (← x).decision : Action Answer).run.run engine).run =
      ((r.map Compiled.decision).map .decision, engine') := by
  have hrun := run_map h fun c => Answer.decision c.decision
  cases r <;> exact hrun

namespace KeepsAsked
variable (h : KeepsAsked config loader handler engine asked)
include h

theorem load (key : String) :
    ∃ engine', ((load key).run.run engine).run = (loaded loader key, engine') ∧
      KeepsAsked config loader handler engine' asked := by
  obtain ⟨_, loader', _, _, loads, compilations⟩ := engine
  obtain rfl : loader' = loader := h.loader_eq
  unfold Engine.load
  rw [run_get_bind]
  cases loader' with
  | none => exact ⟨_, rfl, h⟩
  | some load =>
    refine ⟨_, ?_, h.counted (loads + 1) compilations⟩
    dsimp only
    rw [run_set_bind, loaded]
    cases load key <;> rfl

theorem number (d : Decision) :
    ∃ serial engine', ((number d).run.run engine).run = (.ok ⟨serial, d⟩, engine') ∧
      KeepsAsked config loader handler engine' asked :=
  ⟨engine.compilations, _, rfl, h.counted engine.loads (engine.compilations + 1)⟩

theorem keep {key : String} {d : Decision} (hd : found loader key = .ok d) (serial : Nat) :
    ∃ engine', ((keep key ⟨serial, d⟩).run.run engine).run = (.ok (), engine') ∧
      KeepsAsked config loader handler engine' (asked ++ [key]) := by
  unfold Engine.keep
  rw [run_get_bind]
  cases hcaches : engine.config.caches with
  | true => exact ⟨_, rfl, h.inserted (h.config_eq ▸ hcaches) hd serial⟩
  | false =>
    refine ⟨_, rfl, h.asked_again fun htrue => ?_⟩
    rw [h.config_eq, htrue] at hcaches
    cases hcaches

theorem decision (key : String) :
    ∃ r engine', ((decision key).run.run engine).run = (r, engine') ∧
      r.map Compiled.decision = found loader key ∧
      KeepsAsked config loader handler engine' (asked ++ [key]) := by
  unfold Engine.decision
  rw [run_get_bind]
  cases hkept : Members.get? key engine.kept with
  | some c =>
    obtain ⟨-, hasked, hc⟩ := (h.kept_iff key c.decision).1 ⟨c.serial, hkept⟩
    exact ⟨.ok c, engine, rfl, hc.symm, h.asked_again fun _ _ => hasked⟩
  | none =>
    dsimp only
    obtain ⟨engine', hload, h'⟩ := h.load key
    -- What is not found is not kept.
    have hfailed {e : EngineError} (he : found loader key = .error e) :
        KeepsAsked config loader handler engine' (asked ++ [key]) :=
      h'.asked_again fun _ hfound => by simp [he] at hfound
    cases hloaded : loaded loader key with
    | error e =>
      have hfound : found loader key = .error e := by
        rw [found, hloaded, error_bind]
      rw [hloaded] at hload
      exact ⟨_, _, run_bind_of_error hload _, hfound.symm, hfailed hfound⟩
    | ok document =>
      rw [hloaded] at hload
      rw [run_bind_of_ok hload]
      cases hd : Compiler.standard.compileBytes document (some key) with
      | error cause =>
        have hfound : found loader key = .error (.invalid key cause) := by
          rw [found, hloaded, ok_bind, hd]
          rfl
        exact ⟨_, _, rfl, hfound.symm, hfailed hfound⟩
      | ok d =>
        have hfound : found loader key = .ok d := by
          rw [found, hloaded, ok_bind, hd]
          rfl
        dsimp only
        obtain ⟨serial, numbered, hnumber, hnumbered⟩ := h'.number d
        obtain ⟨final, hkeep, hfinal⟩ := hnumbered.keep hfound serial
        refine ⟨.ok ⟨serial, d⟩, final, ?_, hfound.symm, hfinal⟩
        rw [run_bind_of_ok hnumber, run_bind_of_ok hkeep]
        rfl

theorem compile (document : List UInt8) :
    ∃ r engine', ((compile document).run.run engine).run = (r, engine') ∧
      r.map Compiled.decision =
        (Compiler.standard.compileBytes document none).mapError .compile ∧
      KeepsAsked config loader handler engine' asked := by
  unfold Engine.compile
  cases Compiler.standard.compileBytes document none with
  | error cause => exact ⟨.error (.compile cause), engine, rfl, rfl, h⟩
  | ok d =>
    obtain ⟨serial, engine', hnumber, h'⟩ := h.number d
    exact ⟨_, engine', hnumber, rfl, h'⟩

end KeepsAsked

/-- Computations of an engine that come to the same as those that note keys, and keep what these
ask for. -/
abbrev keeping (config : Config) (loader : Option Loader) (handler : Option Handler) :
    Correspondence (StateM Engine) (StateM (List String)) :=
  .onStates (KeepsAsked config loader handler)

theorem hosts_asking : (keeping config loader handler).Hosts ⟨handler, some resolve⟩
    (askingHost loader handler) := by
  refine ⟨rfl, .some fun key engine asked h => ?_⟩
  obtain ⟨r, engine', hrun, hfound, h'⟩ := h.decision key
  have hask : ((ask loader key).run asked).run = (r.map Compiled.decision, asked ++ [key]) := by
    rw [hfound]
    rfl
  cases r <;> exact ⟨by simp [resolve, hrun, hask, Except.mapError], by
    simpa [resolve, hrun, hask] using h'⟩

variable [Clock]

theorem evaluation_keeping (d : Compiled) (options : Option Options) (context : Value) :
    (keeping config loader handler).Holds (evaluation d options context).run
      (askingResult config loader handler d.decision options context) := by
  intro engine asked h
  obtain ⟨hresult, h'⟩ := Correspondence.holds_evaluate hosts_asking (options.getD config.options)
    d.decision context.normalized engine asked h
  have hevaluation := run_map
    (run_evaluate d (options.getD engine.config.options) context engine) Answer.result
  change ((evaluation d options context).run.run engine).run = _ at hevaluation
  rw [hevaluation, h.config_eq, h.handler_eq, hresult]
  exact ⟨rfl, h'⟩

/-- A call is answered as if nothing were kept. -/
theorem perform_keeping (call : Call) :
    (keeping config loader handler).Holds call.perform.run
      (call.answer config loader handler) := by
  intro engine asked h
  unfold Call.perform Call.answer
  cases call with
  | get key =>
    obtain ⟨r, engine', hrun, hfound, h'⟩ := h.decision key
    dsimp only
    rw [run_answer hrun, hfound]
    exact ⟨rfl, h'⟩
  | evaluate key options context =>
    obtain ⟨r, engine', hrun, hfound, h'⟩ := h.decision key
    dsimp only
    rw [ask_bind, ← hfound]
    cases r with
    | error e =>
      rw [run_bind_of_error hrun]
      exact ⟨rfl, h'⟩
    | ok c =>
      rw [run_bind_of_ok hrun]
      exact evaluation_keeping c options context engine' _ h'
  | create document =>
    obtain ⟨r, engine', hrun, hcompiled, h'⟩ := h.compile document
    dsimp only
    rw [run_answer hrun, hcompiled]
    exact ⟨rfl, h'⟩
  | run d options context => exact evaluation_keeping d options context engine asked h

theorem performAll_keeping (config : Config) (loader : Option Loader) (handler : Option Handler)
    (calls : List Call) : (keeping config loader handler).Holds (performAll calls)
      (answerAll config loader handler calls) :=
  Correspondence.holds_mapM _ perform_keeping calls

/-- Whether an engine keeps decisions makes no difference to its answers, whatever it is asked for:
they are those of an engine that loads and compiles each decision anew. One that does not keep
decisions has none in the end. One that does has one for each key that it was asked for, by a call
or by a decision node, and that could be loaded and compiled, and for no other: what its document
compiles to under the key. -/
theorem performAll_transparent (config : Config) (loader : Option Loader)
    (handler : Option Handler) (calls : List Call) :
    let caching := ((performAll calls).run
      (create { config with caches := true } loader handler)).run
    let plain := ((performAll calls).run
      (create { config with caches := false } loader handler)).run
    let asking := ((answerAll config loader handler calls).run []).run
    caching.1 = plain.1 ∧ plain.1 = asking.1 ∧
      plain.2.kept.length = 0 ∧
      Members.Sorted caching.2.kept ∧
      ∀ key d, (∃ serial, Members.get? key caching.2.kept = some ⟨serial, d⟩) ↔
        key ∈ asking.2 ∧ ∃ load document, loader = some load ∧ load key = .ok document ∧
          Compiler.standard.compileBytes document (some key) = .ok d := by
  intro caching plain asking
  obtain ⟨hcaching, hkept⟩ := performAll_keeping { config with caches := true } loader handler
    calls _ [] keepsAsked_create
  obtain ⟨hplain, hnone⟩ := performAll_keeping { config with caches := false } loader handler
    calls _ [] keepsAsked_create
  refine ⟨hcaching.trans hplain.symm, hplain, ?_, hkept.sorted, fun key d => ?_⟩
  · exact List.length_eq_zero_iff.2 (hnone.kept_eq_nil rfl)
  · rw [← found_eq_ok]
    exact (hkept.kept_iff key d).trans (and_iff_right rfl)

end RuleGraph.Engine

/-!
# Results that may be failures

Sequences of steps of which each may fail: the first failure is that of the whole.
-/
namespace RuleGraph
variable {ε α β γ : Type}

@[simp] theorem ok_bind (a : α) (f : α → Except ε β) : (Except.ok a >>= f) = f a := rfl

@[simp] theorem error_bind (e : ε) (f : α → Except ε β) :
    ((Except.error e : Except ε α) >>= f) = .error e := rfl

@[simp] theorem pure_eq_ok (a : α) : (pure a : Except ε α) = .ok a := rfl

@[simp] theorem throw_eq_error (e : ε) : (throw e : Except ε α) = .error e := rfl

@[simp] theorem bind_ok_self (x : Except ε α) : (x >>= fun a => Except.ok a) = x := by
  cases x <;> rfl

theorem bind_eq_ok {x : Except ε α} {f : α → Except ε β} {b : β} :
    (x >>= f) = .ok b ↔ ∃ a, x = .ok a ∧ f a = .ok b := by
  cases x with
  | error e => simp
  | ok a => simp

theorem bind_congr_ok {x y : Except ε α} {f g : α → Except ε β} (hx : y = x)
    (hf : ∀ a, x = .ok a → g a = f a) : (y >>= g) = (x >>= f) := by
  subst hx
  cases h : y with
  | error e => rfl
  | ok a => exact hf a h

@[simp] theorem map_ok (f : α → β) (a : α) : (Except.ok a : Except ε α).map f = .ok (f a) := rfl

@[simp] theorem map_error (f : α → β) (e : ε) :
    (Except.error e : Except ε α).map f = .error e := rfl

theorem map_eq_ok {x : Except ε α} {f : α → β} {b : β} :
    x.map f = .ok b ↔ ∃ a, x = .ok a ∧ f a = b := by
  cases x with
  | error e => simp
  | ok a => simp

theorem mapError_eq_ok {x : Except ε α} {f : ε → γ} {a : α} :
    x.mapError f = .ok a ↔ x = .ok a := by
  cases x with
  | error e => exact ⟨nofun, nofun⟩
  | ok b =>
    constructor
    · rintro ⟨⟩
      rfl
    · rintro ⟨⟩
      rfl

theorem mapError_eq_error {x : Except ε α} {f : ε → γ} {e' : γ} :
    x.mapError f = .error e' ↔ ∃ e, x = .error e ∧ f e = e' := by
  cases x with
  | ok a => exact ⟨nofun, nofun⟩
  | error e =>
    constructor
    · rintro ⟨⟩
      exact ⟨e, rfl, rfl⟩
    · rintro ⟨_, ⟨⟩, rfl⟩
      rfl

theorem mapM_eq_map {f f' : α → Except ε β} {g : β → β} (h : ∀ a, f' a = (f a).map g)
    (as : List α) : as.mapM f' = (as.mapM f).map (List.map g) := by
  induction as with
  | nil => rfl
  | cons a rest ih =>
    rw [List.mapM_cons, List.mapM_cons, h, ih]
    cases f a with
    | error e => rfl
    | ok b => cases rest.mapM f <;> rfl

theorem mapM_map_eq_ok {f : α → Except ε γ} {f' : β → Except ε γ} {g : α → β}
    (h : ∀ a c, f a = .ok c → f' (g a) = .ok c) {as : List α} {cs : List γ}
    (hcs : as.mapM f = .ok cs) : (as.map g).mapM f' = .ok cs := by
  induction as generalizing cs with
  | nil => exact hcs
  | cons a rest ih =>
    rw [List.mapM_cons] at hcs
    obtain ⟨c, hc, hcs⟩ := bind_eq_ok.1 hcs
    obtain ⟨others, hothers, hcs⟩ := bind_eq_ok.1 hcs
    rw [List.map_cons, List.mapM_cons, h a c hc, ok_bind, ih hothers, ok_bind]
    exact hcs

theorem mapM_eq_ok_iff {f : α → Except ε β} {as : List α} {bs : List β} :
    as.mapM f = .ok bs ↔ as.map f = bs.map .ok := by
  induction as generalizing bs with
  | nil => cases bs <;> simp
  | cons a rest ih =>
    rw [List.mapM_cons]
    cases bs with
    | nil => simp [bind_eq_ok]
    | cons b bs => simp [bind_eq_ok, ih]

theorem length_of_mapM_eq_ok {f : α → Except ε β} {as : List α} {bs : List β}
    (h : as.mapM f = .ok bs) : bs.length = as.length := by
  simpa using (congrArg List.length (mapM_eq_ok_iff.1 h)).symm

theorem exists_of_mapM_eq_error {f : α → Except ε β} {as : List α} {e : ε}
    (h : as.mapM f = .error e) : ∃ a ∈ as, f a = .error e := by
  induction as with
  | nil => cases h
  | cons a rest ih =>
    rw [List.mapM_cons] at h
    cases ha : f a with
    | error e' =>
      rw [ha] at h
      cases h
      exact ⟨a, List.mem_cons_self, ha⟩
    | ok b =>
      cases hrest : rest.mapM f with
      | ok bs =>
        rw [ha, hrest] at h
        cases h
      | error e' =>
        rw [ha, hrest] at h
        cases h
        obtain ⟨c, hc, he⟩ := ih hrest
        exact ⟨c, List.mem_cons_of_mem a hc, he⟩

@[simp] theorem toOption_ok (a : α) : (Except.ok a : Except ε α).toOption = some a := rfl

@[simp] theorem toOption_error (e : ε) : (Except.error e : Except ε α).toOption = none := rfl

theorem toOption_eq_some {x : Except ε α} {a : α} : x.toOption = some a ↔ x = .ok a := by
  cases x with
  | error e => simp
  | ok b => simp

theorem toOption_eq_none {x : Except ε α} : x.toOption = none ↔ ∃ e, x = .error e := by
  cases x with
  | error e => simp
  | ok a => simp

@[simp] theorem toOption_bind (x : Except ε α) (f : α → Except ε β) :
    (x >>= f).toOption = x.toOption.bind fun a => (f a).toOption := by
  cases x <;> rfl

theorem toOption_mapM (f : α → Except ε β) (as : List α) :
    (as.mapM f).toOption = as.mapM fun a => (f a).toOption := by
  induction as with
  | nil => rfl
  | cons a rest ih => simp [List.mapM_cons, ih]

theorem toOption_anyM (test : α → Except ε Bool) (as : List α) :
    (as.anyM test).toOption = as.anyM fun a => (test a).toOption := by
  induction as with
  | nil => rfl
  | cons a rest ih =>
    simp only [List.anyM_cons]
    cases test a with
    | error e => rfl
    | ok b =>
      cases b with
      | true => rfl
      | false => exact ih

theorem toOption_allM (test : α → Except ε Bool) (as : List α) :
    (as.allM test).toOption = as.allM fun a => (test a).toOption := by
  induction as with
  | nil => rfl
  | cons a rest ih =>
    simp only [List.allM_cons]
    cases test a with
    | error e => rfl
    | ok b =>
      cases b with
      | true => exact ih
      | false => rfl

/-- If a step goes well, its result has a property. -/
def Ensures (x : Except ε α) (p : α → Prop) : Prop :=
  ∀ a, x = .ok a → p a

namespace Ensures
variable {p : α → Prop} {q : β → Prop}

theorem ok {a : α} (h : p a) : Ensures (.ok a : Except ε α) p := by
  rintro _ ⟨⟩
  exact h

theorem error (e : ε) : Ensures (.error e) p :=
  nofun

theorem bind {x : Except ε α} {f : α → Except ε β} (hx : Ensures x p)
    (hf : ∀ a, p a → Ensures (f a) q) : Ensures (x >>= f) q := by
  intro b hb
  obtain ⟨a, ha, hb⟩ := bind_eq_ok.1 hb
  exact hf a (hx a ha) b hb

theorem after {x : Except ε α} {f : α → Except ε β} (hf : ∀ a, Ensures (f a) q) :
    Ensures (x >>= f) q :=
  bind (fun _ _ => trivial) fun a (_ : True) => hf a

theorem mapM {f : α → Except ε β} {as : List α} (h : ∀ a ∈ as, Ensures (f a) q) :
    Ensures (as.mapM f) fun bs => ∀ b ∈ bs, q b := by
  intro bs hbs b hb
  have hmem : Except.ok b ∈ as.map f := by
    rw [mapM_eq_ok_iff.1 hbs]
    exact List.mem_map_of_mem hb
  obtain ⟨a, ha, hab⟩ := List.mem_map.1 hmem
  exact h a ha b hab

end Ensures

/-- If a step fails, its failure has a property. -/
def FailsOnly (x : Except ε α) (p : ε → Prop) : Prop :=
  ∀ e, x = .error e → p e

namespace FailsOnly
variable {p : ε → Prop}

theorem ok (a : α) : FailsOnly (.ok a) p :=
  nofun

theorem error {e : ε} (h : p e) : FailsOnly (.error e : Except ε α) p := by
  rintro _ ⟨⟩
  exact h

theorem bind {x : Except ε α} {f : α → Except ε β} (hx : FailsOnly x p)
    (hf : ∀ a, x = .ok a → FailsOnly (f a) p) : FailsOnly (x >>= f) p := by
  cases x with
  | error e =>
    rintro _ ⟨⟩
    exact hx e rfl
  | ok a => exact hf a rfl

theorem mapM {f : α → Except ε β} {as : List α} (h : ∀ a ∈ as, FailsOnly (f a) p) :
    FailsOnly (as.mapM f) p := by
  intro e he
  obtain ⟨a, ha, he⟩ := exists_of_mapM_eq_error he
  exact h a ha e he

end FailsOnly
end RuleGraph

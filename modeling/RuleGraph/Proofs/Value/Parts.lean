import RuleGraph.Expr.Operation
import RuleGraph.Expr.Scope
/-!
# What is taken out of values

A property of values may pass from a value to its items and members. What a path, an index or a
name of a scope leads to then has it, too.
-/
namespace RuleGraph

theorem Members.mem_of_get?_eq_some {α : Type} {key : String} {a : α}
    {members : List (String × α)} (h : get? key members = some a) : (key, a) ∈ members := by
  induction members with
  | nil => cases h
  | cons m rest ih =>
    obtain ⟨k, b⟩ := m
    rw [get?] at h
    split at h
    · next hk =>
      cases h
      rw [hk]
      exact List.mem_cons_self
    · exact List.mem_cons_of_mem _ (ih h)

/-- A property that null and every text have and that passes on to items and members. -/
structure Value.Hereditary (P : Value → Prop) : Prop where
  null : P .null
  string : ∀ s, P (.string s)
  item : ∀ {items v}, P (.array items) → v ∈ items → P v
  member : ∀ {members m}, P (.object members) → m ∈ members → P m.2

namespace Value.Hereditary
variable {P : Value → Prop} {v w : Value} {key : String}

theorem get? (hP : Hereditary P) (hv : P v) (h : v.get? key = some w) : P w := by
  cases v with
  | object members => exact hP.member hv (Members.mem_of_get?_eq_some h)
  | _ => cases h

theorem child (hP : Hereditary P) (hv : P v) (h : v.child key = some w) : P w := by
  cases v with
  | object members => exact hP.member hv (Members.mem_of_get?_eq_some h)
  | array items =>
    obtain ⟨n, -, hn⟩ := Option.bind_eq_some_iff.1 h
    exact hP.item hv (List.mem_of_getElem? hn)
  | _ => cases h

theorem getPath (hP : Hereditary P) {path : List String} (hv : P v)
    (h : v.getPath path = some w) : P w := by
  induction path generalizing v with
  | nil =>
    cases h
    exact hv
  | cons segment rest ih =>
    obtain ⟨u, hu, h⟩ := Option.bind_eq_some_iff.1 h
    exact ih (hP.child hv hu) h

theorem getD (hP : Hereditary P) {v? : Option Value} (h : ∀ v, v? = some v → P v) :
    P (v?.getD .null) := by
  cases v? with
  | none => exact hP.null
  | some v => exact h v rfl

theorem field (hP : Hereditary P) {path : List String} (hv : P v) (h : v.field path = .ok w) :
    P w := by
  cases path with
  | nil =>
    cases h
    exact hP.null
  | cons first rest =>
    rw [Value.field] at h
    cases hfirst : v.get? first with
    | none =>
      rw [hfirst] at h
      cases h
    | some u =>
      rw [hfirst] at h
      cases h
      rw [Value.reach_eq_getD]
      exact hP.getD fun x hx => hP.getPath (hP.get? hv hfirst) hx

theorem index (hP : Hereditary P) (hv : P v) (key : Value) : P (Operation.index v key) := by
  have hitem {items : List Value} (position : Int) (hitems : P (.array items)) :
      P (if position < 0 then .null else (items[position.toNat]?).getD .null) := by
    split
    · exact hP.null
    · exact hP.getD fun u hu => hP.item hitems (List.mem_of_getElem? hu)
  unfold Operation.index
  split
  · split
    · exact hitem _ hv
    · exact hP.null
  · exact hP.getD fun u hu => hP.member hv (Members.mem_of_get?_eq_some hu)
  · split
    · split
      · exact hP.string _
      · exact hP.null
    · exact hP.null
  · exact hP.null

end Value.Hereditary

/-- Everything that a scope shows has a property. -/
structure Scope.Shows (P : Value → Prop) (s : Scope) : Prop where
  root : P s.root
  subject : ∀ v, s.subject? = some v → P v
  element : ∀ v, s.element? = some v → P v

namespace Scope.Shows
variable {P : Value → Prop} {s : Scope} {v : Value}

theorem ofRoot (hv : P v) : (Scope.ofRoot v).Shows P :=
  ⟨hv, nofun, nofun⟩

theorem withElement (hs : s.Shows P) (hv : P v) : (s.withElement v).Shows P where
  root := hs.root
  subject := hs.subject
  element := by
    rintro w ⟨⟩
    exact hv

theorem of_subject_eq_ok (hP : Value.Hereditary P) (hs : s.Shows P) (hv : s.subject = .ok v) :
    P v := by
  rw [Scope.subject] at hv
  cases hsubject : s.subject? with
  | some w =>
    rw [hsubject] at hv
    cases hv
    exact hs.subject v hsubject
  | none =>
    rw [hsubject, Option.none_or] at hv
    cases hroot : s.root.get? "$" with
    | some w =>
      rw [hroot] at hv
      cases hv
      exact hP.get? hs.root hroot
    | none =>
      rw [hroot] at hv
      cases hv

theorem of_element_eq_ok (hs : s.Shows P) (hv : s.element = .ok v) : P v := by
  rw [Scope.element] at hv
  cases helement : s.element? with
  | some w =>
    rw [helement] at hv
    cases hv
    exact hs.element v helement
  | none =>
    rw [helement] at hv
    cases hv

end Scope.Shows
end RuleGraph

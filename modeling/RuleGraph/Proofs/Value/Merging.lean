import RuleGraph.Proofs.Value.Lens
import RuleGraph.Proofs.Value.Ordered
/-!
# What is in a merged value

A path through the members of objects leads in a merged value to what it leads to in the later
value, merged into what is there in the earlier one, and as long as the later value has objects
without the next member, to what it leads to in the earlier one. So nothing changes if a value is
merged in once more.
-/
namespace RuleGraph

namespace Members
variable {α : Type} {key : String} {a : α} {members : List (String × α)}

theorem Sorted.get?_head_eq_none {rest : List (String × α)} (h : Sorted ((key, a) :: rest)) :
    get? key rest = none := by
  have hlt := (List.pairwise_cons.1 h).1
  cases hget : get? key rest with
  | none => rfl
  | some b =>
    have hmem : key ∈ rest.map Prod.fst := List.mem_map_of_mem (mem_of_get?_eq_some hget)
    exact absurd (hlt key hmem) (String.lt_irrefl key)

theorem Sorted.tail {m : String × α} {rest : List (String × α)} (h : Sorted (m :: rest)) :
    Sorted rest :=
  (List.pairwise_cons.1 h).2

theorem Sorted.get?_eq_some_of_mem (h : Sorted members) (hmem : (key, a) ∈ members) :
    get? key members = some a := by
  induction members with
  | nil => cases hmem
  | cons m rest ih =>
    rcases List.mem_cons.1 hmem with rfl | hrest
    · simp [get?]
    · have hne : m.1 ≠ key := fun heq =>
        String.lt_irrefl key (heq ▸ (List.pairwise_cons.1 h).1 key (List.mem_map_of_mem hrest))
      rw [get?, if_neg hne, ih h.tail hrest]

theorem Sorted.insert_of_get? (h : Sorted members) (hget : get? key members = some a) :
    Members.insert key a members = members := by
  induction members with
  | nil => cases hget
  | cons m rest ih =>
    obtain ⟨k, b⟩ := m
    rw [get?] at hget
    split at hget
    · next hk =>
      cases hget
      rw [Members.insert, if_pos hk.symm, hk]
    · next hk =>
      have hmem : key ∈ rest.map Prod.fst := List.mem_map_of_mem (mem_of_get?_eq_some hget)
      have hlt : k < key := (List.pairwise_cons.1 h).1 key hmem
      rw [Members.insert, if_neg (Ne.symm hk), if_neg (String.lt_asymm hlt), ih h.tail hget]

end Members

namespace Value
variable {a b v w : Value} {key : String} {earlier later : List (String × Value)}

def mergeInto (w : Value) : Option Value → Value
  | some v => v.merge w
  | none => w

theorem mergeMembers_cons (key : String) (w : Value) (earlier later : List (String × Value)) :
    mergeMembers earlier ((key, w) :: later) =
      mergeMembers (Members.insert key (w.mergeInto (Members.get? key earlier)) earlier) later := by
  rw [mergeMembers]
  cases Members.get? key earlier <;> rfl

theorem get?_mergeMembers (hlater : Members.Sorted later) (key : String)
    (earlier : List (String × Value)) :
    Members.get? key (mergeMembers earlier later) =
      match Members.get? key later with
      | some w => some (w.mergeInto (Members.get? key earlier))
      | none => Members.get? key earlier := by
  induction later generalizing earlier with
  | nil => rfl
  | cons m rest ih =>
    obtain ⟨k, w⟩ := m
    rw [mergeMembers_cons, ih hlater.tail, Members.get?]
    by_cases hk : k = key
    · subst hk
      rw [if_pos rfl, hlater.get?_head_eq_none, Members.get?_insert_self]
    · rw [if_neg hk, Members.get?_insert_of_ne (Ne.symm hk)]

/-- Two objects are merged member by member; what is no object counts as an empty one. -/
theorem merge_object (hlater : Members.Sorted later) (v : Value) :
    v.merge (.object later) = .object (mergeMembers v.members later) := by
  have hempty : mergeMembers [] later = [] ++ later := Ordered.mergeMembers_of_sorted hlater
  cases v with
  | object earlier => rfl
  | _ => exact congrArg object hempty.symm

theorem get?_merge_object (hlater : Members.Sorted later) (key : String) (v : Value) :
    (v.merge (.object later)).get? key =
      match Members.get? key later with
      | some w => some (w.mergeInto (v.get? key))
      | none => v.get? key := by
  rw [merge_object hlater]
  exact get?_mergeMembers hlater key v.members

theorem merge_of_not_isObject (hw : w.isObject = false) (v : Value) : v.merge w = w := by
  cases w with
  | object members => cases hw
  | _ => rfl

theorem Ordered.sorted_members (hv : v.Ordered) : Members.Sorted v.members := by
  cases hv with
  | object hsorted => exact hsorted
  | _ => exact List.Pairwise.nil

theorem Ordered.ordered_members (hv : v.Ordered) : ∀ m ∈ v.members, m.2.Ordered := by
  cases hv with
  | object hsorted h => exact h
  | _ => exact nofun

theorem Ordered.get? (hv : v.Ordered) (h : v.get? key = some w) : w.Ordered :=
  hereditary.get? hv h

theorem Ordered.merge (ha : a.Ordered) (hb : b.Ordered) : (a.merge b).Ordered := by
  induction hb generalizing a with
  | @object later hlater hmembers ih =>
    rw [merge_object hlater]
    suffices ∀ earlier, Members.Sorted earlier → (∀ m ∈ earlier, m.2.Ordered) →
        (Value.object (mergeMembers earlier later)).Ordered from
      this a.members ha.sorted_members ha.ordered_members
    clear hlater
    induction later with
    | nil => exact fun earlier hsorted h => .object hsorted h
    | cons m rest ihrest =>
      obtain ⟨key, w⟩ := m
      intro earlier hsorted h
      rw [mergeMembers_cons]
      rw [List.forall_mem_cons] at hmembers ih
      refine ihrest hmembers.2 ih.2 _ (hsorted.insert _ _) fun m hm => ?_
      rcases Members.eq_or_mem_of_mem_insert hm with rfl | hm
      · cases hget : Members.get? key earlier with
        | none => exact hmembers.1
        | some v => exact ih.1 (h _ (Members.mem_of_get?_eq_some hget))
      · exact h m hm
  | null => exact .null
  | bool b => exact .bool b
  | number x => exact .number x
  | string s => exact .string s
  | array h => exact .array h

theorem Ordered.mergeAll {vs : List Value} (hvs : ∀ v ∈ vs, v.Ordered) : (mergeAll vs).Ordered := by
  suffices ∀ v : Value, v.Ordered → (vs.foldl Value.merge v).Ordered from
    this empty (.object .nil (List.forall_mem_nil _))
  induction vs with
  | nil => exact fun v hv => hv
  | cons w rest ih =>
    rw [List.forall_mem_cons] at hvs
    exact fun v hv => ih hvs.2 _ (hv.merge hvs.1)

theorem mergeMembers_eq_self (hearlier : Members.Sorted earlier)
    (h : ∀ m ∈ later, ∃ v, Members.get? m.1 earlier = some v ∧ v.merge m.2 = v) :
    mergeMembers earlier later = earlier := by
  induction later with
  | nil => rfl
  | cons m rest ih =>
    obtain ⟨key, w⟩ := m
    rw [List.forall_mem_cons] at h
    obtain ⟨⟨v, hget, hmerge⟩, hrest⟩ := h
    rw [mergeMembers_cons, hget, mergeInto, hmerge, hearlier.insert_of_get? hget, ih hrest]

theorem Ordered.merge_self (ha : a.Ordered) : a.merge a = a := by
  induction ha with
  | @object members hsorted h ih =>
    rw [merge_object hsorted]
    refine congrArg Value.object (mergeMembers_eq_self hsorted fun m hm => ?_)
    exact ⟨m.2, hsorted.get?_eq_some_of_mem hm, ih m hm⟩
  | _ => rfl

theorem Ordered.merge_merge (ha : a.Ordered) (hb : b.Ordered) :
    (a.merge b).merge b = a.merge b := by
  induction hb generalizing a with
  | @object later hlater hmembers ih =>
    have hmerged := (ha.merge (.object hlater hmembers)).sorted_members
    rw [merge_object hlater a] at hmerged ⊢
    rw [merge_object hlater]
    refine congrArg Value.object (mergeMembers_eq_self hmerged fun m hm => ?_)
    -- A member of the later value has been merged into the one that it meets again.
    refine ⟨m.2.mergeInto (a.get? m.1), ?_, ?_⟩
    · have hget := get?_mergeMembers hlater m.1 a.members
      rwa [hlater.get?_eq_some_of_mem hm] at hget
    · cases hget : a.get? m.1 with
      | none => exact (hmembers m hm).merge_self
      | some v => exact ih m hm (ha.get? hget)
  | _ => rfl

/-- Where a walk along a path through the members of objects comes to an end. -/
inductive Walk where
  /-- At the value that the path leads to. -/
  | ends (v : Value)
  /-- At an object that lacks the next member. -/
  | stops
  /-- At a value that is no object and not the end of the path. -/
  | blocked

def walk : List String → Value → Walk
  | [], v => .ends v
  | key :: rest, .object members =>
    match Members.get? key members with
    | some v => v.walk rest
    | none => .stops
  | _ :: _, _ => .blocked

def Walk.end? : Walk → Option Value
  | ends v => some v
  | stops | blocked => none

theorem memberAt_eq_end? (path : List String) (v : Value) :
    v.memberAt path = (v.walk path).end? := by
  induction path generalizing v with
  | nil => rfl
  | cons key rest ih =>
    cases v with
    | object members =>
      rw [memberAt, walk, get?, Value.members]
      cases Members.get? key members with
      | none => rfl
      | some w => exact ih w
    | _ => rfl

/-- The object under a path, an empty one if there is none. -/
def objectAt (path : List String) (v : Value) : Value :=
  ((v.memberAt path).filter isObject).getD empty

theorem Ordered.memberAt {path : List String} (hv : v.Ordered) (h : v.memberAt path = some w) :
    w.Ordered := by
  induction path generalizing v with
  | nil =>
    cases h
    exact hv
  | cons key rest ih =>
    obtain ⟨u, hu, h⟩ := Option.bind_eq_some_iff.1 h
    exact ih (hv.get? hu) h

/-- A value that is merged into what is no object stays as it is. -/
theorem Ordered.merge_of_not_isObject (hb : b.Ordered) (ha : a.isObject = false) :
    a.merge b = b := by
  cases hb with
  | @object later hlater h =>
    cases a with
    | object earlier => cases ha
    | _ => rfl
  | _ => rfl

theorem Ordered.objectAt_nil_merge (hb : b.Ordered) (a : Value) :
    (if b.isObject then (a.objectAt []).merge b else b) = a.merge b := by
  cases hobject : b.isObject with
  | true =>
    cases a with
    | object earlier => rfl
    | _ => exact hb.merge_empty.trans (hb.merge_of_not_isObject rfl).symm
  | false => exact (Value.merge_of_not_isObject hobject a).symm

/-- What a path leads to in a merged value depends on how its walk in the later value ends. -/
theorem memberAt_merge (hb : b.Ordered) (a : Value) (path : List String) :
    (a.merge b).memberAt path =
      match b.walk path with
      | .ends y => some (if y.isObject then (a.objectAt path).merge y else y)
      | .stops => a.memberAt path
      | .blocked => none := by
  induction path generalizing a b with
  | nil => exact congrArg some (hb.objectAt_nil_merge a).symm
  | cons key rest ih =>
    cases b with
    | object later =>
      have hlater : Members.Sorted later := hb.sorted_members
      rw [memberAt, get?_merge_object hlater, walk]
      cases hget : Members.get? key later with
      | none => rfl
      | some w =>
        have hw : w.Ordered := hb.get? hget
        simp only [Option.bind_some, objectAt, memberAt]
        cases a.get? key with
        | some v => exact ih hw v
        | none =>
          -- Nothing is there in the earlier value, so the later one is there as it is.
          have hend := memberAt_eq_end? rest w
          rw [mergeInto, hend]
          cases hwalk : w.walk rest with
          | ends y =>
            rw [hwalk] at hend
            have hy : empty.merge y = y := (hw.memberAt hend).merge_empty
            simp [Walk.end?, hy]
          | stops => rfl
          | blocked => rfl
    | _ => rfl

end Value
end RuleGraph

import Mathlib.Data.List.Induction
import Mathlib.Data.List.Infix
import RuleGraph.Engine.Loader
import RuleGraph.Proofs.Text.Pieces
/-!
# Keys below a folder

The path of a key is the lexical normal form of the key behind the path of its folder. It is the
path of the folder with names behind it: what leads out of the folder is refused, and a key that
never climbs above the folder is not.
-/
namespace RuleGraph
namespace Path
variable {p names : Path} {parts : List String}

/-- A component that names something: no dots and nothing that a slash would cut. -/
structure IsName (name : String) : Prop where
  ne_empty : name ≠ ""
  ne_dot : name ≠ "."
  ne_dots : name ≠ ".."
  noSlash : '/' ∉ name.toList

def IsNormal (p : Path) : Prop :=
  ∀ name ∈ p, IsName name

theorem parts_eq_splitOn (written : String) :
    Path.parts written = ((written.toList.splitOn '/').map String.ofList).filter fun part =>
      part != "" && part != "." := by
  rw [Path.parts, Text.split_eq_splitOn (c := '/') rfl]

theorem isName_of_mem_parts {written part : String} (h : part ∈ Path.parts written)
    (hdots : part ≠ "..") : IsName part := by
  rw [parts_eq_splitOn, List.mem_filter, List.mem_map] at h
  obtain ⟨⟨piece, hpiece, rfl⟩, hpart⟩ := h
  simp only [Bool.and_eq_true, bne_iff_ne] at hpart
  refine ⟨hpart.1, hpart.2, hdots, ?_⟩
  rw [String.toList_ofList]
  exact Text.notMem_of_mem_splitOn hpiece

theorem IsNormal.follow (hp : IsNormal p) {part : String} (hpart : part ≠ ".." → IsName part) :
    IsNormal (p.follow part) := by
  unfold Path.follow
  split
  · exact fun name hname => hp name ((List.dropLast_sublist p).subset hname)
  · next hdots =>
    intro name hname
    rcases List.mem_append.1 hname with hname | hname
    · exact hp name hname
    · rw [List.mem_singleton.1 hname]
      exact hpart hdots

theorem IsNormal.foldl_follow (hp : IsNormal p)
    (hparts : ∀ part ∈ parts, part ≠ ".." → IsName part) :
    IsNormal (parts.foldl Path.follow p) := by
  induction parts generalizing p with
  | nil => exact hp
  | cons part rest ih =>
    rw [List.forall_mem_cons] at hparts
    exact ih (hp.follow hparts.1) hparts.2

theorem IsNormal.followAll (hp : IsNormal p) (written : String) :
    IsNormal (p.followAll written) :=
  hp.foldl_follow fun _ => isName_of_mem_parts

theorem isNormal_ofAbsolute (written : String) : IsNormal (ofAbsolute written) :=
  IsNormal.followAll (p := []) nofun written

theorem parts_join (before after : String) :
    Path.parts (before ++ "/" ++ after) = Path.parts before ++ Path.parts after := by
  have hchars : (before ++ "/" ++ after).toList = before.toList ++ '/' :: after.toList := by
    simp
  rw [parts_eq_splitOn, parts_eq_splitOn, parts_eq_splitOn, hchars,
    List.splitOn_append_cons_self, List.map_append, List.filter_append]

theorem parts_empty : Path.parts "" = [] :=
  rfl

theorem IsNormal.parts_text (hp : IsNormal p) : Path.parts p.text = p := by
  have htext : p.text = "" ++ "/" ++ "/".intercalate p := rfl
  rw [htext, parts_join, parts_empty, List.nil_append]
  cases p with
  | nil => rfl
  | cons name rest =>
    have hsplit : ("/".intercalate (name :: rest)).toList.splitOn '/' =
        (name :: rest).map String.toList := by
      rw [String.toList_intercalate]
      refine List.splitOn_intercalate '/' ?_ (List.cons_ne_nil _ _)
      rintro _ hchars
      obtain ⟨part, hpart, rfl⟩ := List.mem_map.1 hchars
      exact (hp part hpart).noSlash
    rw [parts_eq_splitOn, hsplit, List.map_map]
    have hback : String.ofList ∘ String.toList = id := funext fun _ => String.ofList_toList
    rw [hback, List.map_id, List.filter_eq_self]
    intro part hpart
    simp [(hp part hpart).ne_empty, (hp part hpart).ne_dot]

theorem foldl_follow_of_names (hnames : ".." ∉ names) (p : Path) :
    names.foldl Path.follow p = p ++ names := by
  induction names generalizing p with
  | nil => simp
  | cons name rest ih =>
    rw [List.mem_cons, not_or] at hnames
    rw [List.foldl_cons, Path.follow, if_neg (Ne.symm hnames.1), ih hnames.2]
    simp

theorem IsNormal.followAll_eq_ofAbsolute (hp : IsNormal p) (written : String) :
    p.followAll written = ofAbsolute (p.text ++ "/" ++ written) := by
  have hdots : ".." ∉ p := fun h => (hp _ h).ne_dots rfl
  rw [ofAbsolute, Path.followAll, Path.followAll, parts_join, hp.parts_text, List.foldl_append,
    foldl_follow_of_names hdots, List.nil_append]

/-- No part leads above the place where the first one starts: in front of each there are at least as
many names as two dots. -/
def StaysBelow (parts : List String) : Prop :=
  ∀ before, before <+: parts → before.count ".." ≤ before.countP (· != "..")

instance (parts : List String) : Decidable (StaysBelow parts) :=
  decidable_of_iff (∀ before ∈ parts.inits, before.count ".." ≤ before.countP (· != ".."))
    (by simp only [StaysBelow, List.mem_inits])

/-- What is left of parts when every two dots take back the name before them. -/
inductive Leaves : List String → Path → Prop
  | nil : Leaves [] []
  | name {parts : List String} {names : Path} {name : String} (h : Leaves parts names)
    (hdots : name ≠ "..") : Leaves (parts ++ [name]) (names ++ [name])
  | back {parts : List String} {names : Path} {name : String}
    (h : Leaves parts (names ++ [name])) : Leaves (parts ++ [".."]) names

theorem Leaves.foldl_follow (h : Leaves parts names) (p : Path) :
    parts.foldl Path.follow p = p ++ names := by
  induction h with
  | nil => simp
  | name h hdots ih => simp [ih, Path.follow, hdots]
  | back h ih => simp [ih, Path.follow, ← List.append_assoc]

theorem Leaves.length_add_count (h : Leaves parts names) :
    names.length + parts.count ".." = parts.countP (· != "..") := by
  induction h with
  | nil => rfl
  | name h hdots ih => simp [hdots]; omega
  | back h ih => simp at ih ⊢; omega

theorem StaysBelow.exists_leaves (h : StaysBelow parts) : ∃ names, Leaves parts names := by
  induction parts using List.reverseRecOn with
  | nil => exact ⟨[], .nil⟩
  | append_singleton parts part ih =>
    have hbefore : StaysBelow parts := fun before hpre =>
      h before (hpre.trans (List.prefix_append parts [part]))
    obtain ⟨names, hnames⟩ := ih hbefore
    by_cases hdots : part = ".."
    · subst hdots
      -- There is a name to take back, since otherwise these dots would lead above the start.
      have hcount := h _ (List.prefix_refl _)
      have hlength := hnames.length_add_count
      simp only [List.count_append, List.countP_append] at hcount
      cases names using List.reverseRecOn with
      | nil => simp at hcount hlength; omega
      | append_singleton names name => exact ⟨names, .back hnames⟩
    · exact ⟨names ++ [part], .name hnames hdots⟩

theorem StaysBelow.leaves_ofAbsolute {written : String} (h : StaysBelow (Path.parts written)) :
    Leaves (Path.parts written) (ofAbsolute written) := by
  obtain ⟨names, hnames⟩ := h.exists_leaves
  rwa [ofAbsolute, Path.followAll, hnames.foldl_follow, List.nil_append]

end Path

namespace Folder
open RuleGraph.Path

theorem isNormal_of_at? {isFolder : String → Bool} {written : String} {f : Folder}
    (h : at? isFolder written = .ok f) : IsNormal f.root := by
  unfold at? at h
  split at h
  · cases h
    exact isNormal_ofAbsolute written
  · cases h

theorem resolve_eq_ok_iff {f : Folder} {key : String} {p : Path} :
    f.resolve key = .ok p ↔
      isAbsolute key = false ∧ f.root <+: f.root.followAll key ∧ f.root.followAll key = p := by
  rw [resolve]
  cases isAbsolute key with
  | true => exact ⟨nofun, nofun⟩
  | false =>
    simp only [Bool.false_eq_true, if_false, List.isPrefixOf_iff_prefix, true_and]
    split
    · next h => simp [h]
    · next h => simp [h]

/-- What a key resolves to is the normal form of the key behind the folder, and it is the folder
with names behind it. A relative key that never climbs above the folder resolves to the folder with
those of its names behind it that no dots take back. -/
theorem resolve_stays_within {f : Folder} (hroot : IsNormal f.root) (key : String) :
    (∀ p, f.resolve key = .ok p →
      p = ofAbsolute (f.root.text ++ "/" ++ key) ∧ ∃ names, p = f.root ++ names ∧ IsNormal names) ∧
    (isAbsolute key = false → StaysBelow (parts key) →
      Leaves (parts key) (ofAbsolute key) ∧ f.resolve key = .ok (f.root ++ ofAbsolute key)) := by
  constructor
  · intro p hp
    obtain ⟨-, ⟨names, hnames⟩, rfl⟩ := resolve_eq_ok_iff.1 hp
    refine ⟨hroot.followAll_eq_ofAbsolute key, names, hnames.symm, fun name hname => ?_⟩
    refine hroot.followAll key name ?_
    rw [← hnames]
    exact List.mem_append_right _ hname
  · intro hrelative hbelow
    have hleaves := hbelow.leaves_ofAbsolute
    have hfollow : f.root.followAll key = f.root ++ ofAbsolute key := hleaves.foldl_follow f.root
    refine ⟨hleaves, resolve_eq_ok_iff.2 ⟨hrelative, ?_, hfollow⟩⟩
    rw [hfollow]
    exact List.prefix_append _ _

def rulesFolder : Folder :=
  ⟨["srv", "rules"]⟩

/-- A key that goes down, up and down again resolves below the folder, and so does one that leaves
the folder and comes back to it. A folder whose name only begins like it is another one. -/
theorem rulesFolder_resolve_within :
    IsNormal rulesFolder.root ∧ StaysBelow (parts "eu/./../tax//gold.json") ∧
    rulesFolder.resolve "eu/./../tax//gold.json" = .ok ["srv", "rules", "tax", "gold.json"] ∧
    (∃ names, ["srv", "rules", "gold.json"] = rulesFolder.root ++ names ∧ IsNormal names) ∧
    (rulesFolder.resolve "../rules2/gold.json").isOk = false := by
  have hfolder : at? (fun _ => true) "/srv/./rules/" = .ok rulesFolder := by rfl
  have hroot : IsNormal rulesFolder.root := isNormal_of_at? hfolder
  have hbelow : StaysBelow (parts "eu/./../tax//gold.json") := by decide +kernel
  refine ⟨hroot, hbelow, ?_, ?_, by decide +kernel⟩
  · exact ((resolve_stays_within hroot "eu/./../tax//gold.json").2 (by decide +kernel) hbelow).2
  · exact ((resolve_stays_within hroot "../rules/gold.json").1 _ (by rfl)).2

end Folder
end RuleGraph

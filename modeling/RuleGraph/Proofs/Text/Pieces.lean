import RuleGraph.Text.Pieces
/-!
# Pieces of a text

Joined with the separator the pieces of a text are the text again, and none of them has the
separator in it, unless that is empty. A separator of one character cuts a text at each of its
occurrences.
-/
namespace RuleGraph.Text

section
variable {sep piece cs p : List Char} {k : Nat}

theorem piecesFrom_ne_nil : piecesFrom sep piece k cs ≠ [] := by
  induction cs generalizing piece k with
  | nil => cases k <;> simp [piecesFrom]
  | cons c cs ih =>
    cases k with
    | succ k => exact ih
    | zero =>
      rw [piecesFrom]
      split
      · exact List.cons_ne_nil _ _
      · exact ih

/-- The pieces of what is left of a text are joined to it, behind the piece that has begun and
without what belongs to the separator in front. -/
theorem intercalate_piecesFrom (hsep : sep ≠ []) :
    sep.intercalate (piecesFrom sep piece k cs) = piece.reverse ++ cs.drop k := by
  induction cs generalizing piece k with
  | nil => cases k <;> simp [piecesFrom]
  | cons c cs ih =>
    cases k with
    | succ k => exact ih
    | zero =>
      rw [piecesFrom]
      split
      · next hfirst =>
        obtain ⟨d, ds, rfl⟩ := List.exists_cons_of_ne_nil hsep
        obtain ⟨rest, hrest⟩ := List.isPrefixOf_iff_prefix.1 hfirst
        have hbehind : d :: ds ++ cs.drop ds.length = c :: cs := by
          obtain ⟨rfl, rfl⟩ := List.cons.inj hrest
          rw [List.append_eq, List.drop_left]
          rfl
        rw [List.intercalate_cons_of_ne_nil piecesFrom_ne_nil, ih, List.append_assoc,
          List.reverse_nil, List.nil_append, List.length_cons, Nat.add_sub_cancel, hbehind,
          List.drop_zero]
      · rw [ih, List.drop_zero, List.drop_zero, List.reverse_cons, List.append_assoc]
        rfl

theorem not_infix_of_forall {rest : List Char} (hsep : sep ≠ [])
    (h : ∀ t, t ≠ [] → t <:+ p → ¬sep <+: t ++ rest) : ¬sep <:+: p := by
  intro hinfix
  obtain ⟨t, hprefix, hsuffix⟩ := List.infix_iff_prefix_suffix.1 hinfix
  have ht : t ≠ [] := by
    rintro rfl
    exact hsep (List.prefix_nil.1 hprefix)
  exact h t ht hsuffix (List.prefix_append_of_prefix hprefix)

/-- Separators are looked for at each character: none begins in the piece that has begun. -/
theorem not_infix_of_mem_piecesFrom (hsep : sep ≠ [])
    (hpiece : ∀ t, t ≠ [] → t <:+ piece.reverse → ¬sep <+: t ++ cs.drop k)
    (hp : p ∈ piecesFrom sep piece k cs) : ¬sep <:+: p := by
  induction cs generalizing piece k with
  | nil =>
    obtain rfl : p = piece.reverse := by cases k <;> simpa [piecesFrom] using hp
    exact not_infix_of_forall hsep hpiece
  | cons c cs ih =>
    cases k with
    | succ k => exact ih hpiece hp
    | zero =>
      rw [piecesFrom] at hp
      split at hp
      · rcases List.mem_cons.1 hp with rfl | hp
        · exact not_infix_of_forall hsep hpiece
        · refine ih (fun t ht hsuffix => ?_) hp
          exact absurd (List.suffix_nil.1 hsuffix) ht
      · next hfirst =>
        rw [List.isPrefixOf_iff_prefix] at hfirst
        refine ih (fun t ht hsuffix => ?_) hp
        rw [List.reverse_cons, List.suffix_concat_iff] at hsuffix
        obtain ⟨u, rfl, hu⟩ := hsuffix.resolve_left ht
        rw [List.append_assoc]
        by_cases hempty : u = []
        · rw [hempty]
          exact hfirst
        · exact hpiece u hempty hu

theorem pieces_ne_nil : pieces sep cs ≠ [] := by
  unfold pieces
  split
  · exact List.cons_ne_nil _ _
  · exact piecesFrom_ne_nil

theorem nil_intercalate (pieces : List (List Char)) : [].intercalate pieces = pieces.flatten := by
  induction pieces with
  | nil => rfl
  | cons piece pieces ih =>
    cases pieces with
    | nil => simp
    | cons next pieces =>
      rw [List.intercalate_cons_cons, ih, List.append_nil, List.flatten_cons (l := piece)]

theorem intercalate_pieces : sep.intercalate (pieces sep cs) = cs := by
  unfold pieces
  split
  · next hsep =>
    have hsingle : (cs.map fun c => [c]).flatten = cs := by
      rw [← List.flatMap_def, List.flatMap_singleton']
    rw [List.isEmpty_iff.1 hsep, nil_intercalate, List.flatten_append, List.flatten_cons, hsingle]
    simp
  · next hsep => exact intercalate_piecesFrom fun h => hsep (List.isEmpty_iff.2 h)

end

section
variable {s sep p : String}

theorem split_ne_nil : split s sep ≠ [] := by
  rw [split, Ne, List.map_eq_nil_iff]
  exact pieces_ne_nil

theorem intercalate_split (s sep : String) : sep.intercalate (split s sep) = s := by
  rw [← String.toList_inj, String.toList_intercalate, split, List.map_map]
  have hchars : String.toList ∘ String.ofList = id := funext fun cs => String.toList_ofList
  rw [hchars, List.map_id, intercalate_pieces]

theorem not_infix_of_mem_split (hsep : sep ≠ "") (hp : p ∈ split s sep) :
    ¬sep.toList <:+: p.toList := by
  have hchars : sep.toList ≠ [] := by simpa using hsep
  obtain ⟨piece, hpiece, rfl⟩ := List.mem_map.1 hp
  rw [pieces, if_neg (by simpa using hsep)] at hpiece
  rw [String.toList_ofList]
  exact not_infix_of_mem_piecesFrom hchars
    (fun t ht hsuffix => absurd (List.suffix_nil.1 hsuffix) ht) hpiece

end

theorem piecesFrom_singleton (c : Char) (piece cs : List Char) :
    piecesFrom [c] piece 0 cs = cs.splitOnPPrepend (· == c) piece := by
  induction cs generalizing piece with
  | nil => rfl
  | cons d cs ih =>
    have hfirst : [c].isPrefixOf (d :: cs) = (d == c) := by
      simp [List.isPrefixOf, Bool.beq_comm]
    rw [piecesFrom, hfirst, List.splitOnPPrepend_cons_eq_if, ih]
    congr 2
    exact ih []

theorem split_eq_splitOn {sep : String} {c : Char} (h : sep.toList = [c]) (s : String) :
    split s sep = (s.toList.splitOn c).map String.ofList := by
  rw [split, h]
  exact congrArg (List.map String.ofList) (piecesFrom_singleton c [] s.toList)

theorem notMem_of_mem_splitOn {c : Char} {piece cs : List Char} (h : piece ∈ cs.splitOn c) :
    c ∉ piece := by
  induction cs generalizing piece with
  | nil =>
    rw [List.splitOn_nil, List.mem_singleton] at h
    simp [h]
  | cons d cs ih =>
    rw [List.splitOn_cons_eq_if_modifyHead] at h
    split at h
    · rcases List.mem_cons.1 h with rfl | h
      · exact List.not_mem_nil
      · exact ih h
    · next hd =>
      obtain ⟨first, rest, hpieces⟩ := List.exists_cons_of_ne_nil (List.splitOn_ne_nil c cs)
      rw [hpieces, List.modifyHead_cons, List.mem_cons] at h
      rw [hpieces] at ih
      rcases h with rfl | h
      · intro hmem
        rcases List.mem_cons.1 hmem with rfl | hmem
        · exact hd (BEq.refl _)
        · exact ih List.mem_cons_self hmem
      · exact ih (List.mem_cons_of_mem _ h)

end RuleGraph.Text

import RuleGraph.Proofs.Expr.Closure
import RuleGraph.Run.Table
/-!
# The rows of a table that count

What a table gives, said of its rows at once: which of them may count, which are looked at and
which match. A row that is not looked at may be any row, and the two kinds of rows may be mixed in
any way.
-/
namespace RuleGraph

/-- Whether a test or a row holds. -/
def isHit (verdict : Except EvalError Bool) : Bool :=
  verdict.toOption == some true

/-- Whether a test or a row does not hold, and not because it fails. -/
def isMiss (verdict : Except EvalError Bool) : Bool :=
  verdict.toOption == some false

theorem isHit_iff {verdict : Except EvalError Bool} : isHit verdict ↔ verdict = .ok true := by
  cases verdict with
  | error e => simp [isHit, Except.toOption]
  | ok b => simp [isHit, Except.toOption]

@[simp] theorem isHit_ok (b : Bool) : isHit (.ok b) = b := by cases b <;> rfl

@[simp] theorem isHit_error (e : EvalError) : isHit (.error e) = false := rfl

@[simp] theorem isMiss_ok (b : Bool) : isMiss (.ok b) = !b := by cases b <;> rfl

@[simp] theorem isMiss_error (e : EvalError) : isMiss (.error e) = false := rfl

/-- What the tests of a row give, each of its subject; empty cells have none. -/
def Row.results (row : Row) (s : Scope) (subjects : List (Option Value)) :
    List (Except EvalError Bool) :=
  (row.conditions.zip subjects).filterMap fun (test, subject) =>
    test.map (·.holds ((subject.map s.withSubject).getD s))

/-- What the first test that does not hold gives, if there is one; a row matches otherwise. -/
def Row.verdict (row : Row) (s : Scope) (subjects : List (Option Value)) : Except EvalError Bool :=
  ((row.results s subjects).find? (!isHit ·)).getD (.ok true)

/-- The cells of a row that are not empty, each with the path of its column. -/
def Row.cells (row : Row) (columns : List TableOutput) : List (List String × Expr) :=
  (columns.zip row.outputs).filterMap fun (column, cell) => cell.map (column.path, ·)

/-- The values of the cells of a row, stored one after another under their paths. -/
def Row.output (row : Row) (s : Scope) (columns : List TableOutput) : Except EvalError Value := do
  let members ← (row.cells columns).mapM fun (path, e) => (e.eval s).map (path, ·)
  return members.foldl (fun output (path, v) => output.setPath path v) .empty

/-- What the trace says of a row that counts: its id, if it has one, and its place. -/
def Row.listing (row : Row) : Value :=
  .object [
    ("id", match row.id with
      | none => .null
      | some id => .string id),
    ("index", .number (Float.ofNat row.index))]

theorem testsHold_eq_verdict (row : Row) (s : Scope) (subjects : List (Option Value)) :
    testsHold s row.conditions subjects = row.verdict s subjects := by
  unfold Row.verdict Row.results
  generalize row.conditions = tests
  induction tests generalizing subjects with
  | nil => rfl
  | cons test tests ih =>
    cases subjects with
    | nil => cases test <;> rfl
    | cons subject subjects =>
      cases test with
      | none => simpa [testsHold] using ih subjects
      | some test =>
        rw [testsHold, ih]
        cases htest : test.holds ((subject.map s.withSubject).getD s) with
        | error e => simp [htest]
        | ok b => cases b <;> simp [htest]

theorem rowOutput_eq_foldl (s : Scope) (columns : List TableOutput) (cells : List (Option Expr))
    (output : Value) :
    rowOutput s columns cells output = (do
      let members ← ((columns.zip cells).filterMap fun (column, cell) =>
        cell.map (column.path, ·)).mapM fun (path, e) => (e.eval s).map (path, ·)
      return members.foldl (fun output (path, v) => output.setPath path v) output) := by
  induction columns generalizing cells output with
  | nil => cases cells <;> rfl
  | cons column columns ih =>
    cases cells with
    | nil => rfl
    | cons cell cells =>
      cases cell with
      | none => simpa [rowOutput] using ih cells output
      | some cell =>
        rw [rowOutput]
        cases hcell : cell.eval s with
        | error e => simp [hcell]
        | ok v => simp [hcell, ih]

theorem rowOutput_eq_output (row : Row) (s : Scope) (columns : List TableOutput) :
    rowOutput s columns row.outputs .empty = row.output s columns :=
  rowOutput_eq_foldl s columns row.outputs .empty

namespace Table
variable {policy : HitPolicy} {verdict : Row → Except EvalError Bool} {rows : List Row}

/-- The rows looked at: if only the first match counts, none after the first that is no miss. -/
def inspected (policy : HitPolicy) (verdict : Row → Except EvalError Bool) (rows : List Row) :
    List Row :=
  match policy with
  | .first => rows.takeWhile (isMiss <| verdict ·) ++ (rows.dropWhile (isMiss <| verdict ·)).take 1
  | .collect => rows

/-- The rows that count: the first match, or every match. -/
def chosen (policy : HitPolicy) (verdict : Row → Except EvalError Bool) (rows : List Row) :
    List Row :=
  match policy with
  | .first => (rows.find? (isHit <| verdict ·)).toList
  | .collect => rows.filter (isHit <| verdict ·)

/-- The rows that may count: the default rows if no regular row is more than a miss. -/
def candidates (t : Table) (verdict : Row → Except EvalError Bool) : List Row :=
  if ∀ row ∈ t.rows, row.isDefault ∨ isMiss (verdict row) then t.rows.filter (·.isDefault)
  else t.rows.filter (!·.isDefault)

/-- What a table gives for the subjects of its columns. -/
def declared (t : Table) (input : Value) (subjects : List (Option Value)) :
    Except EvalError Outcome := do
  let s := Scope.ofRoot input
  let verdict (row : Row) := row.verdict s subjects
  let _ ← (inspected t.policy verdict (t.candidates verdict)).mapM verdict
  let rows := chosen t.policy verdict (t.candidates verdict)
  let outputs ← rows.mapM (·.output s t.outputs)
  let output := outputs.foldl .merge .empty
  let trace := Value.object [("matched", .array (rows.map Row.listing))]
  return ⟨if t.passThrough then input.merge output else output, some trace⟩

/-- Matching looks at the rows one after another, and fails where the first of them fails. -/
theorem matching_eq (policy : HitPolicy) (verdict : Row → Except EvalError Bool)
    (rows : List Row) :
    matching policy verdict rows = (do
      let _ ← (inspected policy verdict rows).mapM verdict
      return chosen policy verdict rows) := by
  induction rows with
  | nil => cases policy <;> rfl
  | cons row rest ih =>
    unfold matching
    cases policy with
    | first =>
      cases hrow : verdict row with
      | error e => simp [inspected, hrow]
      | ok b =>
        cases b with
        | true => simp [inspected, chosen, hrow]
        | false => simpa [inspected, chosen, hrow] using ih
    | collect =>
      cases hrow : verdict row with
      | error e => simp [inspected, hrow]
      | ok b =>
        simp only [inspected, chosen] at ih
        cases b with
        | true => simp [inspected, chosen, hrow, ih]
        | false => simp [inspected, chosen, hrow, ih]

theorem matching_eq_ok_nil :
    matching policy verdict rows = .ok [] ↔ ∀ row ∈ rows, isMiss (verdict row) := by
  induction rows with
  | nil => simp [matching]
  | cons row rest ih =>
    unfold matching
    rw [List.forall_mem_cons, ← ih]
    cases hrow : verdict row with
    | error e => simp
    | ok b =>
      cases b with
      | true => cases policy <;> simp [bind_eq_ok]
      | false => simp

theorem selected_eq (t : Table) (verdict : Row → Except EvalError Bool) :
    t.selected verdict = matching t.policy verdict (t.candidates verdict) := by
  unfold selected candidates
  by_cases h : ∀ row ∈ t.rows, row.isDefault ∨ isMiss (verdict row)
  · have hnil : matching t.policy verdict (t.rows.filter (!·.isDefault)) = .ok [] := by
      rw [matching_eq_ok_nil]
      intro row hrow
      obtain ⟨hmem, hregular⟩ := List.mem_filter.1 hrow
      exact (h row hmem).resolve_left (by simpa using hregular)
    rw [if_pos h, hnil]
    rfl
  · rw [if_neg h]
    cases hmatching : matching t.policy verdict (t.rows.filter (!·.isDefault)) with
    | error e => rfl
    | ok regular =>
      cases regular with
      | cons row rest => rfl
      | nil =>
        apply absurd _ h
        intro row hmem
        by_cases hdefault : row.isDefault
        · exact .inl hdefault
        · exact .inr (matching_eq_ok_nil.1 hmatching row (by simp [hmem, hdefault]))

theorem mark_eq_listing (row : Row) : mark row = row.listing := by
  unfold mark Row.listing
  cases row.id <;> rfl

theorem detail_eq_listings (rows : List Row) :
    detail rows = .object [("matched", .array (rows.map Row.listing))] := by
  rw [← funext mark_eq_listing]
  rfl

theorem evaluate_eq (t : Table) {input : Value} {subjects : List (Option Value)}
    (h : t.inputs.mapM (·.subject (.ofRoot input)) = .ok subjects) :
    t.evaluate input = t.declared input subjects := by
  unfold evaluate declared
  simp only [h, ok_bind, testsHold_eq_verdict, rowOutput_eq_output]
  rw [selected_eq, matching_eq]
  simp only [bind_assoc, pure_eq_ok, ok_bind, detail_eq_listings]
  rfl

def goesOn (policy : HitPolicy) (verdict : Except EvalError Bool) : Prop :=
  match policy with
  | .first => verdict = .ok false
  | .collect => ∃ b, verdict = .ok b

/-- Whether a row is looked at that stands after other ones. -/
structure Reaches (t : Table) (verdict : Row → Except EvalError Bool) (before : List Row)
    (row : Row) : Prop where
  regular : row.isDefault → ∀ other ∈ t.rows, other.isDefault ∨ isMiss (verdict other)
  earlier : ∀ other ∈ before, other.isDefault = row.isDefault → goesOn t.policy (verdict other)

/-- A match hides the default rows if it is regular, and the later rows of its kind if only the
first match counts. -/
theorem Reaches.not_of_hit {t : Table} {before : List Row} {row other : Row}
    (hhit : isHit (verdict other))
    (h : other ∈ t.rows ∧ other.isDefault = false ∧ row.isDefault ∨
      other ∈ before ∧ other.isDefault = row.isDefault ∧ t.policy = .first) :
    ¬t.Reaches verdict before row := by
  intro hreaches
  rw [isHit_iff] at hhit
  rcases h with ⟨hmem, hregular, hdefault⟩ | ⟨hmem, hkind, hpolicy⟩
  · rcases hreaches.regular hdefault other hmem with hdefault | hmiss
    · rw [hregular] at hdefault
      cases hdefault
    · rw [hhit] at hmiss
      cases hmiss
  · have hgoes := hreaches.earlier other hmem hkind
    rw [hpolicy, hhit] at hgoes
    cases hgoes

/-- Rows that stand in place of others of their kind, and are as those where it matters: the tests
of a row that is looked at, and all of a row that matches then. -/
def StandIn (t : Table) (verdict : Row → Except EvalError Bool) (pairs : List (Row × Row)) : Prop :=
  ∀ before row other after, pairs = before ++ (row, other) :: after →
    other.isDefault = row.isDefault ∧
    (t.Reaches verdict (before.map Prod.fst) row →
      other.conditions = row.conditions ∧
      (isHit (verdict row) → other.outputs = row.outputs ∧ other.listing = row.listing))

/-- Two lists of rows that come from pairs with a property, or the same failure. -/
def SamePlaces (P : Row × Row → Prop) (x y : Except EvalError (List Row)) : Prop :=
  ∃ r : Except EvalError (List (Row × Row)),
    x = r.map (List.map Prod.fst) ∧ y = r.map (List.map Prod.snd) ∧
    ∀ places, r = .ok places → ∀ p ∈ places, P p

section
variable {P Q : Row × Row → Prop} {x y : Except EvalError (List Row)} {p : Row × Row}

theorem SamePlaces.imp (h : SamePlaces P x y) (hPQ : ∀ p, P p → Q p) : SamePlaces Q x y := by
  obtain ⟨r, hx, hy, hr⟩ := h
  exact ⟨r, hx, hy, fun places hplaces p hp => hPQ p (hr places hplaces p hp)⟩

theorem samePlaces_nil : SamePlaces P (.ok []) (.ok []) :=
  ⟨.ok [], rfl, rfl, by rintro _ ⟨⟩ p hp; cases hp⟩

theorem samePlaces_error (e : EvalError) : SamePlaces P (.error e) (.error e) :=
  ⟨.error e, rfl, rfl, nofun⟩

theorem SamePlaces.cons (h : SamePlaces P x y) (hp : P p) :
    SamePlaces P (x.map (p.1 :: ·)) (y.map (p.2 :: ·)) := by
  obtain ⟨r, rfl, rfl, hr⟩ := h
  refine ⟨r.map (p :: ·), ?_, ?_, ?_⟩
  · cases r <;> rfl
  · cases r <;> rfl
  · intro places hplaces q hq
    obtain ⟨others, hothers, rfl⟩ := map_eq_ok.1 hplaces
    rcases List.mem_cons.1 hq with rfl | hq
    · exact hp
    · exact hr others hothers q hq

end

/-- Whether a pair is looked at along others, and its first row matches. -/
def FoundIn (policy : HitPolicy) (verdict : Row → Except EvalError Bool) (pairs : List (Row × Row))
    (p : Row × Row) : Prop :=
  isHit (verdict p.1) ∧ ∃ before after, pairs = before ++ p :: after ∧
    ∀ q ∈ before, goesOn policy (verdict q.1)

theorem FoundIn.cons {p q : Row × Row} {rest : List (Row × Row)}
    (h : FoundIn policy verdict rest q) (hp : goesOn policy (verdict p.1)) :
    FoundIn policy verdict (p :: rest) q := by
  obtain ⟨hhit, before, after, heq, hbefore⟩ := h
  refine ⟨hhit, p :: before, after, ?_, List.forall_mem_cons.2 ⟨hp, hbefore⟩⟩
  rw [heq, List.cons_append]

theorem FoundIn.head {p : Row × Row} (h : verdict p.1 = .ok true) (rest : List (Row × Row)) :
    FoundIn policy verdict (p :: rest) p :=
  ⟨isHit_iff.2 h, [], rest, rfl, by simp⟩

/-- Rows that agree as far as they are looked at match at the same places. -/
theorem matching_pairs {pairs : List (Row × Row)}
    (h : AgreeWhile (fun p : Row × Row => goesOn policy (verdict p.1)) (fun p => verdict p.1)
      (fun p => verdict p.2) pairs) :
    SamePlaces (FoundIn policy verdict pairs) (matching policy verdict (pairs.map Prod.fst))
      (matching policy verdict (pairs.map Prod.snd)) := by
  induction pairs with
  | nil => exact samePlaces_nil
  | cons p rest ih =>
    have hhead : verdict p.2 = verdict p.1 := h.head
    simp only [List.map_cons]
    unfold matching
    rw [hhead]
    cases hp : verdict p.1 with
    | error e => exact samePlaces_error e
    | ok b =>
      cases b with
      | false =>
        have hgoes : goesOn policy (verdict p.1) := by
          cases policy with
          | first => exact hp
          | collect => exact ⟨false, hp⟩
        exact (ih (h.tail hgoes)).imp fun q hq => hq.cons hgoes
      | true =>
        have hfound : FoundIn policy verdict (p :: rest) p := .head hp rest
        cases policy with
        | first => exact samePlaces_nil.cons hfound
        | collect =>
          have hgoes : goesOn .collect (verdict p.1) := ⟨true, hp⟩
          exact ((ih (h.tail hgoes)).imp fun q hq => hq.cons hgoes).cons hfound

theorem split_of_filter {α : Type} {p : α → Bool} {items before after : List α} {x : α}
    (h : items.filter p = before ++ x :: after) :
    ∃ start rest, items = start ++ x :: rest ∧ start.filter p = before := by
  obtain ⟨front, back, rfl, hfront, hback⟩ := List.filter_eq_append_iff.1 h
  obtain ⟨skipped, rest, rfl, hskipped, -, -⟩ := List.filter_eq_cons_iff.1 hback
  refine ⟨front ++ skipped, rest, by rw [List.append_assoc], ?_⟩
  rw [List.filter_append, hfront, List.filter_eq_nil_iff.2 hskipped, List.append_nil]

def CountsIn (t : Table) (verdict : Row → Except EvalError Bool) (pairs : List (Row × Row))
    (p : Row × Row) : Prop :=
  isHit (verdict p.1) ∧ ∃ before after, pairs = before ++ p :: after ∧
    t.Reaches verdict (before.map Prod.fst) p.1

section
variable {t : Table} {pairs : List (Row × Row)}

theorem reaches_of_filter {kind : Bool} {p : Row × Row} {before after : List (Row × Row)}
    (hkind : kind → ∀ other ∈ t.rows, other.isDefault ∨ isMiss (verdict other))
    (heq : pairs.filter (·.1.isDefault == kind) = before ++ p :: after)
    (hbefore : ∀ q ∈ before, goesOn t.policy (verdict q.1)) :
    ∃ start rest, pairs = start ++ p :: rest ∧ t.Reaches verdict (start.map Prod.fst) p.1 := by
  have hp : p ∈ pairs.filter (·.1.isDefault == kind) := by simp [heq]
  have hpkind : p.1.isDefault = kind := by simpa using (List.mem_filter.1 hp).2
  obtain ⟨start, rest, hpairs, hstart⟩ := split_of_filter heq
  refine ⟨start, rest, hpairs, ?_, ?_⟩
  · intro hdefault
    exact hkind (hpkind ▸ hdefault)
  · intro other hother hsame
    obtain ⟨q, hq, rfl⟩ := List.mem_map.1 hother
    apply hbefore q
    rw [← hstart]
    exact List.mem_filter.2 ⟨hq, by simpa [hpkind] using hsame⟩

variable (hpairs : t.rows = pairs.map Prod.fst) (h : t.StandIn verdict pairs)
  (hverdict : ∀ row other : Row, other.conditions = row.conditions → verdict other = verdict row)

include h hverdict in
theorem StandIn.matching (kind : Bool)
    (hkind : kind → ∀ other ∈ t.rows, other.isDefault ∨ isMiss (verdict other)) :
    SamePlaces (t.CountsIn verdict pairs)
      (matching t.policy verdict ((pairs.map Prod.fst).filter (·.isDefault == kind)))
      (matching t.policy verdict ((pairs.map Prod.snd).filter (·.isDefault == kind))) := by
  have hagree : AgreeWhile (fun p : Row × Row => goesOn t.policy (verdict p.1))
      (fun p => verdict p.1) (fun p => verdict p.2) (pairs.filter (·.1.isDefault == kind)) := by
    intro before p after heq hbefore
    obtain ⟨start, rest, hsplit, hreaches⟩ := reaches_of_filter hkind heq hbefore
    exact hverdict p.1 p.2 ((h start p.1 p.2 rest hsplit).2 hreaches).1
  have hsame : pairs.filter ((·.isDefault == kind) ∘ Prod.snd) =
      pairs.filter (·.1.isDefault == kind) := by
    apply List.filter_congr
    intro p hp
    obtain ⟨before, after, hsplit⟩ := List.append_of_mem hp
    rw [Function.comp_apply, (h before p.1 p.2 after hsplit).1]
  rw [List.filter_map, List.filter_map, hsame]
  refine (matching_pairs hagree).imp ?_
  rintro p ⟨hhit, before, after, heq, hbefore⟩
  exact ⟨hhit, reaches_of_filter hkind heq hbefore⟩

theorem selected_eq_kinds (t : Table) :
    t.selected verdict = (do
      let regular ← Table.matching t.policy verdict (t.rows.filter (·.isDefault == false))
      if regular.isEmpty then Table.matching t.policy verdict (t.rows.filter (·.isDefault == true))
      else return regular) := by
  simp only [selected, beq_false, beq_true]

include hpairs h hverdict in
theorem StandIn.selected :
    SamePlaces (t.CountsIn verdict pairs) (t.selected verdict)
      ({ t with rows := pairs.map Prod.snd }.selected verdict) := by
  rw [selected_eq_kinds, selected_eq_kinds, hpairs]
  obtain ⟨regular, hfst, hsnd, hcounts⟩ := h.matching hverdict false nofun
  rw [hfst, hsnd]
  cases regular with
  | error e => exact samePlaces_error e
  | ok places =>
    cases places with
    | cons p rest => exact ⟨.ok (p :: rest), rfl, rfl, hcounts⟩
    | nil =>
      apply h.matching hverdict true
      intro _ other hother
      by_cases hdefault : other.isDefault
      · exact .inl hdefault
      · refine .inr (matching_eq_ok_nil.1 hfst other (List.mem_filter.2 ⟨hpairs ▸ hother, ?_⟩))
        simpa using hdefault

end

/-- Rows that are not looked at may be any rows, and rows that do not count may have any outputs. -/
theorem evaluate_standIn {t : Table} {input : Value} {subjects : List (Option Value)}
    (hsubjects : t.inputs.mapM (·.subject (.ofRoot input)) = .ok subjects)
    {pairs : List (Row × Row)} (hpairs : t.rows = pairs.map Prod.fst)
    (h : t.StandIn (·.verdict (.ofRoot input) subjects) pairs) :
    { t with rows := pairs.map Prod.snd }.evaluate input = t.evaluate input := by
  have hverdict (row other : Row) (hconditions : other.conditions = row.conditions) :
      other.verdict (.ofRoot input) subjects = row.verdict (.ofRoot input) subjects := by
    rw [Row.verdict, Row.results, hconditions]
    rfl
  obtain ⟨r, hfst, hsnd, hcounts⟩ := h.selected hpairs hverdict
  unfold evaluate
  simp only [hsubjects, ok_bind, testsHold_eq_verdict, hfst, hsnd]
  cases r with
  | error e => rfl
  | ok places =>
    have hsame (p : Row × Row) (hp : p ∈ places) :
        p.2.outputs = p.1.outputs ∧ p.2.listing = p.1.listing := by
      obtain ⟨hhit, start, rest, hsplit, hreaches⟩ := hcounts places rfl p hp
      exact ((h start p.1 p.2 rest hsplit).2 hreaches).2 hhit
    have houtputs :
        (places.map Prod.snd).map Row.outputs = (places.map Prod.fst).map Row.outputs := by
      rw [List.map_map, List.map_map]
      exact List.map_congr_left fun p hp => (hsame p hp).1
    have hlistings :
        (places.map Prod.snd).map Row.listing = (places.map Prod.fst).map Row.listing := by
      rw [List.map_map, List.map_map]
      exact List.map_congr_left fun p hp => (hsame p hp).2
    have hmapM (rows : List Row) : rows.mapM (fun row =>
          rowOutput (.ofRoot input) t.outputs row.outputs .empty) =
        (rows.map Row.outputs).mapM (rowOutput (.ofRoot input) t.outputs · .empty) := by
      rw [List.mapM_map]
      rfl
    simp only [map_ok, ok_bind, detail_eq_listings, hmapM, houtputs, hlistings]

theorem evaluate_of_kinds_eq {t : Table} {rows : List Row} {input : Value}
    (hregular : rows.filter (!·.isDefault) = t.rows.filter (!·.isDefault))
    (hdefault : rows.filter (·.isDefault) = t.rows.filter (·.isDefault)) :
    { t with rows }.evaluate input = t.evaluate input := by
  unfold evaluate selected
  simp only [hregular, hdefault]

def firstRow (row : Row) : Row :=
  { row with index := 0 }

section
variable {f : Row → Row} (hverdict : ∀ row, verdict (f row) = verdict row)
include hverdict

theorem matching_map_rows (rows : List Row) :
    matching policy verdict (rows.map f) = (matching policy verdict rows).map (List.map f) := by
  induction rows with
  | nil => rfl
  | cons row rest ih =>
    rw [List.map_cons]
    unfold matching
    rw [hverdict, ih]
    cases verdict row with
    | error e => rfl
    | ok b =>
      cases b with
      | false => rfl
      | true =>
        cases policy with
        | first => rfl
        | collect => cases matching .collect verdict rest <;> rfl

theorem selected_map_rows (t : Table) (hkind : ∀ row, (f row).isDefault = row.isDefault) :
    { t with rows := t.rows.map f }.selected verdict = (t.selected verdict).map (List.map f) := by
  unfold selected
  have hregular : ((!·.isDefault) ∘ f) = (!·.isDefault) := by
    funext row
    rw [Function.comp_apply, hkind]
  have hdefault : ((·.isDefault) ∘ f) = (·.isDefault) := funext hkind
  simp only [List.filter_map, matching_map_rows hverdict, hregular, hdefault]
  cases matching t.policy verdict (t.rows.filter (!·.isDefault)) with
  | error e => rfl
  | ok regular => cases regular <;> rfl

end

/-- The places of the rows matter for the trace alone. -/
theorem evaluate_firstRow (t : Table) (input : Value) :
    ({ t with rows := t.rows.map firstRow }.evaluate input).map Outcome.output =
      (t.evaluate input).map Outcome.output := by
  unfold evaluate
  simp only
  cases t.inputs.mapM (·.subject (.ofRoot input)) with
  | error e => rfl
  | ok subjects =>
    simp only [ok_bind]
    rw [selected_map_rows (f := firstRow) (fun row => rfl) t fun row => rfl]
    cases t.selected fun row => testsHold (.ofRoot input) row.conditions subjects with
    | error e => rfl
    | ok rows =>
      simp only [map_ok, ok_bind, List.mapM_map]
      have hsame :
          (fun row => rowOutput (.ofRoot input) t.outputs row.outputs .empty) ∘ firstRow =
            fun row => rowOutput (.ofRoot input) t.outputs row.outputs .empty := rfl
      rw [hsame]
      cases rows.mapM fun row => rowOutput (.ofRoot input) t.outputs row.outputs .empty <;> rfl

theorem evaluate_of_numbered_kinds_eq {t : Table} {rows : List Row} {input : Value}
    (hregular : (rows.filter (!·.isDefault)).map firstRow =
      (t.rows.filter (!·.isDefault)).map firstRow)
    (hdefault : (rows.filter (·.isDefault)).map firstRow =
      (t.rows.filter (·.isDefault)).map firstRow) :
    ({ t with rows }.evaluate input).map Outcome.output =
      (t.evaluate input).map Outcome.output := by
  have hfilter (kind : Bool → Bool) (rows : List Row) :
      (rows.map firstRow).filter (kind ·.isDefault) =
        (rows.filter (kind ·.isDefault)).map firstRow := List.filter_map
  calc
    _ = ({ t with rows := rows.map firstRow }.evaluate input).map Outcome.output :=
      (evaluate_firstRow { t with rows } input).symm
    _ = ({ t with rows := t.rows.map firstRow }.evaluate input).map Outcome.output := by
      congr 1
      apply evaluate_of_kinds_eq (t := { t with rows := t.rows.map firstRow })
      · exact (hfilter (!·) rows).trans (hregular.trans (hfilter (!·) t.rows).symm)
      · exact (hfilter id rows).trans (hdefault.trans (hfilter id t.rows).symm)
    _ = _ := evaluate_firstRow t input

/-- If the subjects of its columns have values, a table gives what is declared of its rows. Rows
that are not looked at, such as those that a match hides, and outputs of rows that do not count have
no part in it, and how the two kinds of rows are mixed matters for their numbers in the trace
alone. -/
theorem evaluate_of_subjects (t : Table) (input : Value) (subjects : List (Option Value))
    (h : t.inputs.mapM (·.subject (.ofRoot input)) = .ok subjects) :
    t.evaluate input = t.declared input subjects ∧
    (∀ pairs, t.rows = pairs.map Prod.fst →
      t.StandIn (·.verdict (.ofRoot input) subjects) pairs →
      { t with rows := pairs.map Prod.snd }.evaluate input = t.evaluate input) ∧
    (∀ before row other, isHit (other.verdict (.ofRoot input) subjects) →
      other ∈ t.rows ∧ other.isDefault = false ∧ row.isDefault ∨
        other ∈ before ∧ other.isDefault = row.isDefault ∧ t.policy = .first →
      ¬t.Reaches (·.verdict (.ofRoot input) subjects) before row) ∧
    (∀ rows, rows.filter (!·.isDefault) = t.rows.filter (!·.isDefault) →
      rows.filter (·.isDefault) = t.rows.filter (·.isDefault) →
      { t with rows }.evaluate input = t.evaluate input) ∧
    (∀ rows, (rows.filter (!·.isDefault)).map firstRow =
        (t.rows.filter (!·.isDefault)).map firstRow →
      (rows.filter (·.isDefault)).map firstRow = (t.rows.filter (·.isDefault)).map firstRow →
      ({ t with rows }.evaluate input).map Outcome.output =
        (t.evaluate input).map Outcome.output) := by
  refine ⟨evaluate_eq t h, ?_, ?_, ?_, ?_⟩
  · intro pairs hpairs hstandIn
    exact evaluate_standIn h hpairs hstandIn
  · intro before row other hhit
    exact Reaches.not_of_hit hhit
  · intro rows hregular hdefault
    exact evaluate_of_kinds_eq hregular hdefault
  · intro rows hregular hdefault
    exact evaluate_of_numbered_kinds_eq hregular hdefault

def goldRow : Row :=
  ⟨1, some "gold", false, [some (.binary .subject .eq (.string "gold"))], [some (.string "low")]⟩

/-- Rates by tier; the row after that for gold fails. -/
def rateTable : Table where
  policy := .first
  inputs := [⟨"tier", "Tier", some (.field ["tier"])⟩]
  outputs := [⟨"rate", "Rate", ["rate"]⟩]
  rows := [⟨0, none, true, [none], [some (.string "full")]⟩, goldRow,
    ⟨2, none, false, [some .element], [some .element]⟩]
  passThrough := true

theorem rateTable_evaluate_gold :
    let input := Value.object [("tier", .string "gold")]
    rateTable.inputs.mapM (·.subject (.ofRoot input)) = .ok [some (.string "gold")] ∧
    rateTable.evaluate input = .ok
      ⟨.object [("rate", .string "low"), ("tier", .string "gold")],
        some (.object [("matched", .array [
          .object [("id", .string "gold"), ("index", .number (Float.ofNat 1))]])])⟩ ∧
    { rateTable with rows := rateTable.rows.drop 1 ++ rateTable.rows.take 1 }.evaluate input =
      rateTable.evaluate input := by
  intro input
  have hsubjects : rateTable.inputs.mapM (·.subject (.ofRoot input)) =
    .ok [some (.string "gold")] := rfl
  obtain ⟨hdeclared, -, -, hmixed, -⟩ := evaluate_of_subjects rateTable input _ hsubjects
  refine ⟨hsubjects, hdeclared.trans rfl, ?_⟩
  exact hmixed (rateTable.rows.drop 1 ++ rateTable.rows.take 1) rfl rfl

end Table
end RuleGraph

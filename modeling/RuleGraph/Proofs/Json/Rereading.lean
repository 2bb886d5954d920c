import Mathlib
import RuleGraph.Expr.Eval
import RuleGraph.Json.Printer
import RuleGraph.Proofs.Number.ReadBack
import RuleGraph.Proofs.Value.Ordered
/-!
# JSON text in expressions

The JSON text of a value is also an expression, and nearly one of the same value: numbers, brackets
and names are read as they were written, but of the escapes in strings only some are known. The
letter or the digits of any other escape stand for themselves.
-/
namespace RuleGraph
open Lexer

namespace Members
variable {α : Type}

theorem ofList_eq_self {members : List (String × α)} (h : Sorted members) :
    ofList members = members := by
  suffices ∀ earlier later : List (String × α), Sorted (earlier ++ later) →
      later.foldl (fun members p => insert p.1 p.2 members) earlier = earlier ++ later from
    this [] members h
  intro earlier later h
  induction later generalizing earlier with
  | nil => rw [List.foldl_nil, List.append_nil]
  | cons m rest ih =>
    have hlt : ∀ k ∈ earlier.map Prod.fst, k < m.1 := by
      intro k hk
      rw [Sorted, List.map_append, List.pairwise_append] at h
      exact h.2.2 k hk m.1 List.mem_cons_self
    rw [List.append_cons] at h ⊢
    rw [List.foldl_cons, insert_of_forall_lt hlt]
    exact ih _ h

end Members

/-- Whether a character is read back from JSON text in an expression. -/
def isKept (c : Char) : Bool :=
  decide (0x20 ≤ c.toNat) || c == '\t' || c == '\n' || c == '\r'

/-- What a character of JSON text is read as in an expression. -/
def rereadChar (c : Char) : List Char :=
  if isKept c then [c] else (Json.escapedChar c).tail

def rereadString (s : String) : String :=
  String.ofList (s.toList.flatMap rereadChar)

theorem stringBody_escapedChar {c : Char} {rest value : List Char} {n : Nat}
    (h : stringBody '"' rest = .closed value n) :
    stringBody '"' (Json.escapedChar c ++ rest) =
      .closed (rereadChar c ++ value) (n + (Json.escapedChar c).length) := by
  have hplain : ∀ {d : Char} {cs value : List Char} {n : Nat}, d ≠ '\\' → d ≠ '"' →
      stringBody '"' cs = .closed value n →
        stringBody '"' (d :: cs) = .closed (d :: value) (n + 1) := by
    intro d cs value n hd hd' h
    rw [stringBody_cons hd, if_neg (by simpa using hd'), h]
    rfl
  have hescaped : ∀ {d : Char} {cs value : List Char} {n : Nat},
      stringBody '"' cs = .closed value n →
        stringBody '"' ('\\' :: d :: cs) = .closed (escaped d :: value) (n + 2) := by
    intro d cs value n h
    rw [stringBody, h]
    rfl
  unfold rereadChar Json.escapedChar
  split
  case h_8 hquote hbackslash hback htab hline hform hreturn =>
    split
    · next hcontrol =>
      have hkept : isKept c = false := by
        have htab : c ≠ '\t' := htab
        have hline : c ≠ '\n' := hline
        have hreturn : c ≠ '\r' := hreturn
        simp [isKept, htab, hline, hreturn]
        omega
      have hdigit : ∀ k, Nat.digitChar k ≠ '\\' ∧ Nat.digitChar k ≠ '"' := fun k =>
        ⟨Nat.digitChar_ne _ (by decide), Nat.digitChar_ne _ (by decide)⟩
      rw [hkept]
      exact hescaped (hplain (by decide) (by decide) (hplain (by decide) (by decide)
        (hplain (hdigit _).1 (hdigit _).2 (hplain (hdigit _).1 (hdigit _).2 h))))
    · next hlarge =>
      have hkept : isKept c = true := by
        simp only [isKept, Bool.or_eq_true, decide_eq_true_eq]
        omega
      rw [hkept]
      exact hplain hbackslash hquote h
  all_goals exact hescaped h

theorem stringBody_stringChars (cs : List Char) :
    stringBody '"' (cs.flatMap Json.escapedChar ++ ['"']) =
      .closed (cs.flatMap rereadChar) ((cs.flatMap Json.escapedChar).length + 1) := by
  induction cs with
  | nil => rfl
  | cons c cs ih =>
    rw [List.flatMap_cons, List.flatMap_cons, List.append_assoc, stringBody_escapedChar ih,
      List.length_append]
    congr 1
    omega

theorem lexedAs_stringChars (s : String) :
    LexedAs (Json.stringChars s) [.string (rereadString s)] := by
  have hbegins : Begins '"' ((s.toList.flatMap Json.escapedChar ++ ['"']) ++ [])
      (.string (rereadString s)) (s.toList.flatMap Json.escapedChar ++ ['"']).length := by
    rw [List.append_nil, List.length_append, List.length_singleton]
    exact .string (by decide) (by decide) (stringBody_stringChars s.toList)
  have hlexed := lexedAs_nil.token (by decide) hbegins
  rwa [List.append_nil] at hlexed

theorem rereadString_eq_self {s : String} (h : s.toList.all isKept) : rereadString s = s := by
  have hchars : ∀ c ∈ s.toList, rereadChar c = [c] := fun c hc => by
    rw [rereadChar, if_pos (List.all_eq_true.1 h c hc)]
  rw [rereadString, List.flatMap_congr hchars, List.flatMap_singleton', String.ofList_toList]

theorem allKept_rereadChar (c : Char) : (rereadChar c).all isKept := by
  unfold rereadChar
  split
  · next hkept => simp [hkept]
  · next hkept =>
    have hcontrols : ∀ n < 0x20, (Json.escapedChar (Char.ofNat n)).tail.all isKept := by decide
    have hcontrol : c.toNat < 0x20 := by
      simp only [isKept, Bool.or_eq_true, decide_eq_true_eq, not_or] at hkept
      omega
    simpa using hcontrols c.toNat hcontrol

theorem allKept_rereadString (s : String) : (rereadString s).toList.all isKept := by
  rw [rereadString, String.toList_ofList, List.all_eq_true]
  intro d hd
  obtain ⟨c, -, hd⟩ := List.mem_flatMap.1 hd
  exact List.all_eq_true.1 (allKept_rereadChar c) d hd

namespace Value

mutual

/-- Whether JSON text keeps all strings and keys of a value. -/
def isKept : Value → Bool
  | .string s => s.toList.all RuleGraph.isKept
  | .array items => areKept items
  | .object members => membersKept members
  | _ => true
termination_by structural v => v

def areKept : List Value → Bool
  | [] => true
  | v :: rest => v.isKept && areKept rest
termination_by structural vs => vs

def membersKept : List (String × Value) → Bool
  | [] => true
  | (k, v) :: rest => k.toList.all RuleGraph.isKept && v.isKept && membersKept rest
termination_by structural ms => ms

end

mutual

/-- The expression that the JSON text of a value is read as. -/
def reading : Value → Expr
  | .null => .literal .null
  | .bool b => .bool b
  | .number x => .number x
  | .string s => .string (rereadString s)
  | .array items => .array (itemReadings items)
  | .object members => .object (memberReadings members)
termination_by structural v => v

def itemReadings : List Value → List Expr
  | [] => []
  | v :: rest => v.reading :: itemReadings rest
termination_by structural vs => vs

def memberReadings : List (String × Value) → List (String × Expr)
  | [] => []
  | (k, v) :: rest => (rereadString k, v.reading) :: memberReadings rest
termination_by structural ms => ms

end

mutual

/-- The value of that expression. -/
def reread : Value → Value
  | .null => .null
  | .bool b => .bool b
  | .number x => .number x
  | .string s => .string (rereadString s)
  | .array items => .array (rereadItems items)
  | .object members => .record (rereadMembers members)
termination_by structural v => v

def rereadItems : List Value → List Value
  | [] => []
  | v :: rest => v.reread :: rereadItems rest
termination_by structural vs => vs

def rereadMembers : List (String × Value) → List (String × Value)
  | [] => []
  | (k, v) :: rest => (rereadString k, v.reread) :: rereadMembers rest
termination_by structural ms => ms

end

mutual

theorem eval_reading (v : Value) (s : Scope) : v.reading.eval s = .ok v.reread := by
  match v with
  | .null | .bool _ | .number _ | .string _ => rfl
  | .array items =>
    rw [reading, Expr.eval, evalAll_itemReadings items s]
    rfl
  | .object members =>
    rw [reading, Expr.eval, evalEntries_memberReadings members s]
    rfl
termination_by structural v

theorem evalAll_itemReadings (vs : List Value) (s : Scope) :
    Expr.evalAll (itemReadings vs) s = .ok (rereadItems vs) := by
  match vs with
  | [] => rfl
  | v :: rest =>
    rw [itemReadings, Expr.evalAll, eval_reading v s, evalAll_itemReadings rest s]
    rfl
termination_by structural vs

theorem evalEntries_memberReadings (ms : List (String × Value)) (s : Scope) :
    Expr.evalEntries (memberReadings ms) s = .ok (rereadMembers ms) := by
  match ms with
  | [] => rfl
  | (k, v) :: rest =>
    rw [memberReadings, Expr.evalEntries, eval_reading v s, evalEntries_memberReadings rest s]
    rfl
termination_by structural ms

end

mutual

theorem isWritable_reading (v : Value) (h : v.isFinite) : v.reading.IsWritable := by
  match v with
  | .null | .bool _ | .number _ | .string _ => exact ⟨rfl, h⟩
  | .array items => exact allWritable_itemReadings items h
  | .object members => exact entriesWritable_memberReadings members h
termination_by structural v

theorem allWritable_itemReadings (vs : List Value) (h : areFinite vs) :
    Expr.AllWritable (itemReadings vs) := by
  match vs with
  | [] => trivial
  | v :: rest =>
    rw [areFinite, Bool.and_eq_true] at h
    exact ⟨isWritable_reading v h.1, allWritable_itemReadings rest h.2⟩
termination_by structural vs

theorem entriesWritable_memberReadings (ms : List (String × Value)) (h : membersFinite ms) :
    Expr.EntriesWritable (memberReadings ms) := by
  match ms with
  | [] => trivial
  | (k, v) :: rest =>
    rw [membersFinite, Bool.and_eq_true] at h
    exact ⟨isWritable_reading v h.1, entriesWritable_memberReadings rest h.2⟩
termination_by structural ms

end

mutual

theorem operatorCount_reading (v : Value) : v.reading.operatorCount = 0 := by
  match v with
  | .null | .bool _ | .number _ | .string _ => rfl
  | .array items => exact allOperatorCount_itemReadings items
  | .object members => exact entriesOperatorCount_memberReadings members
termination_by structural v

theorem allOperatorCount_itemReadings (vs : List Value) :
    Expr.allOperatorCount (itemReadings vs) = 0 := by
  match vs with
  | [] => rfl
  | v :: rest =>
    rw [itemReadings, Expr.allOperatorCount, operatorCount_reading v,
      allOperatorCount_itemReadings rest]
termination_by structural vs

theorem entriesOperatorCount_memberReadings (ms : List (String × Value)) :
    Expr.entriesOperatorCount (memberReadings ms) = 0 := by
  match ms with
  | [] => rfl
  | (k, v) :: rest =>
    rw [memberReadings, Expr.entriesOperatorCount, operatorCount_reading v,
      entriesOperatorCount_memberReadings rest]
termination_by structural ms

end

theorem areKept_iff {vs : List Value} : areKept vs ↔ ∀ v ∈ vs, v.isKept := by
  induction vs with
  | nil => simp [areKept]
  | cons v rest ih => simp [areKept, ih]

theorem membersKept_iff {ms : List (String × Value)} :
    membersKept ms ↔ ∀ m ∈ ms, m.1.toList.all RuleGraph.isKept ∧ m.2.isKept := by
  induction ms with
  | nil => simp [membersKept]
  | cons m rest ih => simp [membersKept, ih]

theorem rereadItems_eq_map (vs : List Value) : rereadItems vs = vs.map reread := by
  induction vs with
  | nil => rfl
  | cons v rest ih => rw [rereadItems, ih, List.map_cons]

theorem rereadMembers_eq_map (ms : List (String × Value)) :
    rereadMembers ms = ms.map fun m => (rereadString m.1, m.2.reread) := by
  induction ms with
  | nil => rfl
  | cons m rest ih => rw [rereadMembers, ih, List.map_cons]

theorem reread_eq_self {v : Value} (hv : v.Ordered) (hkept : v.isKept) : v.reread = v := by
  induction hv with
  | null | bool | number => rfl
  | string s => exact congrArg Value.string (rereadString_eq_self hkept)
  | @array items h ih =>
    rw [isKept, areKept_iff] at hkept
    have hitems : items.map reread = items.map id :=
      List.map_congr_left fun v hv => ih v hv (hkept v hv)
    rw [reread, rereadItems_eq_map, hitems, List.map_id]
  | @object members hsorted h ih =>
    rw [isKept, membersKept_iff] at hkept
    have hmembers : (members.map fun m => (rereadString m.1, m.2.reread)) = members.map id :=
      List.map_congr_left fun m hm => by
        rw [rereadString_eq_self (hkept m hm).1, ih m hm (hkept m hm).2]
        rfl
    rw [reread, rereadMembers_eq_map, hmembers, List.map_id, record,
      Members.ofList_eq_self hsorted]

mutual

theorem isKept_reread (v : Value) : v.reread.isKept := by
  match v with
  | .null | .bool _ | .number _ => rfl
  | .string s => exact allKept_rereadString s
  | .array items =>
    rw [reread, isKept]
    exact areKept_rereadItems items
  | .object members =>
    rw [reread, record, isKept, membersKept_iff]
    intro m hm
    exact membersKept_iff.1 (membersKept_rereadMembers members) m (Members.mem_of_mem_ofList hm)
termination_by structural v

theorem areKept_rereadItems (vs : List Value) : areKept (rereadItems vs) := by
  match vs with
  | [] => rfl
  | v :: rest =>
    rw [rereadItems, areKept, isKept_reread v, areKept_rereadItems rest]
    rfl
termination_by structural vs

theorem membersKept_rereadMembers (ms : List (String × Value)) :
    membersKept (rereadMembers ms) := by
  match ms with
  | [] => rfl
  | (k, v) :: rest =>
    rw [rereadMembers, membersKept, allKept_rereadString, isKept_reread v,
      membersKept_rereadMembers rest]
    rfl
termination_by structural ms

end

/-- A value is read back from its JSON text exactly if the text keeps its strings and keys. -/
theorem reread_eq_self_iff {v : Value} (hv : v.Ordered) : v.reread = v ↔ v.isKept :=
  ⟨fun h => h ▸ isKept_reread v, reread_eq_self hv⟩

end Value
end RuleGraph

import Mathlib
import RuleGraph.Proofs.Number.ReadBack
import RuleGraph.Proofs.Value.Finite
import RuleGraph.Value.Json
/-!
# The text of a value and its JSON text

A list and an object show the JSON texts of what they hold. The text of a number that stands alone
is its JSON text only if both forms write the same digits positionally and with a fraction, or the
number is an integer below the safe bound.
-/
namespace RuleGraph

namespace Number

/-- The number is written alike alone and in JSON: as an integer, or with a fraction and without an
exponent, and no other decimal of its length is as near to it. -/
def ReadsAlike (x : Float) : Prop :=
  isIntegral x ∨ (shortest .up x = shortest .even x ∧ (shortest .even x).exponent < 0 ∧
    -5 ≤ (shortest .even x).leading ∧ (shortest .even x).leading ≤ 15)

instance (x : Float) : Decidable (ReadsAlike x) :=
  inferInstanceAs (Decidable (_ ∨ _))

variable {x : Float} {d : Decimal}

theorem AllDigits.notMem {ds : List Char} {c : Char} (h : AllDigits ds)
    (hc : c.isDigit = false) : c ∉ ds := by
  intro hmem
  rw [h c hmem] at hc
  cases hc

theorem point_mem_positionalChars_iff {fraction : Bool} :
    '.' ∈ d.positionalChars fraction ↔ fraction ∨ d.exponent < 0 := by
  have hdigits : '.' ∉ digitChars d.digits := (allDigits_digitChars _).notMem rfl
  have hzeros (n : Nat) : '.' ∉ List.replicate n '0' := (allDigits_zeros n).notMem rfl
  unfold Decimal.positionalChars
  by_cases he : 0 ≤ d.exponent
  · cases fraction <;> simp [he, hdigits, hzeros]
  · simp only [if_neg he, Int.not_le.1 he, or_true, iff_true]
    split <;> simp

theorem e_notMem_positionalChars (fraction : Bool) (d : Decimal) :
    'e' ∉ d.positionalChars fraction := by
  have hdigits : 'e' ∉ digitChars d.digits := (allDigits_digitChars _).notMem rfl
  have hzeros (n : Nat) : 'e' ∉ List.replicate n '0' := (allDigits_zeros n).notMem rfl
  have htake (n : Nat) : 'e' ∉ (digitChars d.digits).take n := fun h =>
    hdigits (List.mem_of_mem_take h)
  have hdrop (n : Nat) : 'e' ∉ (digitChars d.digits).drop n := fun h =>
    hdigits (List.mem_of_mem_drop h)
  unfold Decimal.positionalChars
  dsimp only
  split
  · cases fraction <;> simp [hdigits, hzeros]
  · split <;> simp [hdigits, hzeros, htake, hdrop]

theorem positionalChars_of_exponent_neg (h : d.exponent < 0) (fraction fraction' : Bool) :
    d.positionalChars fraction = d.positionalChars fraction' := by
  simp only [Decimal.positionalChars, if_neg (Int.not_le.2 h)]

theorem eq_zero_of_digits {tie : Tie} (hx : x.isFinite) (h : (shortest tie x).digits = 0) :
    shortest tie x = ⟨0, 0⟩ := by
  obtain ⟨s, hu⟩ | ⟨s, m, q, hm, hu⟩ := unpack_of_isFinite hx
  · exact shortest_of_zero tie hu
  · have hpos := (roundsTo_shortest tie hu).1.pos hm
    rw [Decimal.value, h, Nat.cast_zero, zero_mul] at hpos
    exact absurd hpos (lt_irrefl 0)

theorem magnitude_decimalNotation {tie : Tie} (hx : x.isFinite) :
    Json.decimalNotation.magnitude (shortest tie x) =
      if -5 ≤ (shortest tie x).leading ∧ (shortest tie x).leading ≤ 15 then
        (shortest tie x).positionalChars true
      else (shortest tie x).exponentChars true := by
  change (if _ ∨ _ then _ else _) = _
  by_cases hdigits : (shortest tie x).digits = 0
  · rw [if_pos (.inl hdigits), eq_zero_of_digits hx hdigits]
    rfl
  · simp only [hdigits, false_or]
    rfl

theorem magnitude_eq_iff (hx : x.isFinite) :
    plain.magnitude (shortest .up x) = Json.decimalNotation.magnitude (shortest .even x) ↔
      shortest .up x = shortest .even x ∧ (shortest .even x).exponent < 0 ∧
        -5 ≤ (shortest .even x).leading ∧ (shortest .even x).leading ≤ 15 := by
  have hplain : plain.magnitude (shortest .up x) = (shortest .up x).positionalChars false := rfl
  constructor
  · intro h
    have hvalue := (isSpelling_magnitude plain (shortest .up x)).value_eq
      (h ▸ isSpelling_magnitude Json.decimalNotation (shortest .even x))
    have hshortest := shortest_eq_of_value hvalue
    rw [hplain, magnitude_decimalNotation hx] at h
    split at h
    · next hrange =>
      have hpoint : '.' ∈ (shortest .even x).positionalChars true :=
        point_mem_positionalChars_iff.2 (.inl rfl)
      rw [← h, hshortest, point_mem_positionalChars_iff] at hpoint
      exact ⟨hshortest, hpoint.resolve_left Bool.false_ne_true, hrange⟩
    · refine absurd ?_ (e_notMem_positionalChars false (shortest .up x))
      rw [h]
      simp [Decimal.exponentChars]
  · rintro ⟨hshortest, hexponent, hrange⟩
    rw [hplain, magnitude_decimalNotation hx, if_pos hrange, hshortest]
    exact positionalChars_of_exponent_neg hexponent false true

theorem write_eq_iff (hx : x.isFinite) :
    plain.write x = Json.decimalNotation.write x ↔
      plain.magnitude (shortest .up x) = Json.decimalNotation.magnitude (shortest .even x) := by
  rw [write_of_isFinite plain hx, write_of_isFinite Json.decimalNotation hx]
  split
  · rw [List.cons_inj_right]
    rfl
  · rfl

/-- A finite number has its JSON text alone exactly if it reads alike. -/
theorem text_eq_chars_iff (hx : x.isFinite) :
    Number.text x = (Json.ofNumber x).chars ↔ ReadsAlike x := by
  rw [Number.text, Json.ofNumber, ReadsAlike]
  by_cases hintegral : isIntegral x
  · simp only [hintegral, if_true, true_or, iff_true]
    rfl
  · have hchars : (Json.decimal x).chars = Json.decimalNotation.write x := if_pos hx
    simp only [hintegral, hx, if_true, if_false, false_or, hchars, write_eq_iff hx,
      magnitude_eq_iff hx, Bool.false_eq_true]

/-- A tenth reads alike. A number with an exponent in JSON, one without a fraction from `2 ^ 53` on
and one halfway between two decimals do not. -/
example : ReadsAlike 0.1 ∧ ¬ReadsAlike 1e-7 ∧ ¬ReadsAlike 9007199254740992 ∧
    ¬ReadsAlike 1125899906842624.25 := by
  decide +kernel

end Number

namespace Json

theorem itemChars_eq_intercalate (items : List Json) :
    itemChars items = [','].intercalate (items.map chars) := by
  induction items with
  | nil => rfl
  | cons j rest ih =>
    cases rest with
    | nil => simp [itemChars]
    | cons k rest => simp [itemChars, ih]

theorem memberChars_eq_intercalate (members : List (String × Json)) :
    memberChars members =
      [','].intercalate (members.map fun m => stringChars m.1 ++ ':' :: m.2.chars) := by
  induction members with
  | nil => rfl
  | cons m rest ih =>
    cases rest with
    | nil => simp [memberChars]
    | cons k rest => simp [memberChars, ih]

end Json

namespace Value

theorem text_array (items : List Value) :
    (array items).text = "[" ++ ",".intercalate (items.map jsonText) ++ "]" := by
  have hchars : String.toList ∘ jsonText = Json.chars ∘ toJson :=
    funext fun v => String.toList_ofList
  have htext : (array items).text =
      String.ofList ('[' :: (Json.itemChars (itemsToJson items) ++ [']'])) := rfl
  rw [htext, Json.itemChars_eq_intercalate, itemsToJson_eq_map, List.map_map, ← hchars,
    ← String.toList_inj, String.toList_ofList]
  simp [String.toList_intercalate]

def memberText (m : String × Value) : String :=
  (string m.1).jsonText ++ ":" ++ m.2.jsonText

theorem text_object (members : List (String × Value)) :
    (object members).text = "\x7b" ++ ",".intercalate (members.map memberText) ++ "\x7d" := by
  have hchars : (fun m : String × Json => Json.stringChars m.1 ++ ':' :: m.2.chars) ∘
        (fun m : String × Value => (m.1, m.2.toJson)) = String.toList ∘ memberText := by
    funext m
    have hkey : (string m.1).jsonText = String.ofList (Json.stringChars m.1) := rfl
    rw [Function.comp_apply, Function.comp_apply, memberText, hkey]
    simp [jsonText, Json.text]
  have htext : (object members).text = String.ofList
      ('\x7b' :: (Json.memberChars (membersToJson members) ++ ['\x7d'])) := rfl
  rw [htext, Json.memberChars_eq_intercalate, membersToJson_eq_map, List.map_map, hchars,
    ← String.toList_inj, String.toList_ofList]
  simp [String.toList_intercalate]

theorem text_number_iff {x : Float} (hx : x.isFinite) :
    (number x).text = (number x).jsonText ↔ Number.ReadsAlike x := by
  rw [text, jsonText, Json.text, toJson, String.ofList_inj, Number.text_eq_chars_iff hx]

/-- The text of a finite value that is no string is its JSON text, unless it is a number that does
not read alike. In a list and in an object it always has its JSON text. -/
theorem text_eq_jsonText_iff (v : Value) (hfinite : v.isFinite) (hstring : ∀ s, v ≠ string s) :
    (v.text = v.jsonText ↔ ∀ x, v = number x → Number.ReadsAlike x) ∧
    (∀ before after : List Value, (array (before ++ v :: after)).text =
      "[" ++ ",".intercalate (before.map jsonText ++ v.jsonText :: after.map jsonText) ++ "]") ∧
    (∀ (before after : List (String × Value)) (key : String),
      (object (before ++ (key, v) :: after)).text =
        "\x7b" ++ ",".intercalate
          (before.map memberText ++ memberText (key, v) :: after.map memberText) ++ "\x7d") := by
  refine ⟨?_, fun before after => ?_, fun before after key => ?_⟩
  · cases v with
    | null | bool | array | object => exact iff_of_true rfl nofun
    | string s => exact absurd rfl (hstring s)
    | number x =>
      rw [text_number_iff (isFinite_number.1 hfinite)]
      constructor
      · rintro h y ⟨⟩
        exact h
      · exact fun h => h x rfl
  · rw [text_array, List.map_append, List.map_cons]
  · rw [text_object, List.map_append, List.map_cons]

theorem tenth_text_eq :
    (number 0.1).isFinite ∧ (number 0.1).text = (number 0.1).jsonText ∧
      (array [null, number 0.1]).text =
        "[" ++ ",".intercalate [null.jsonText, (number 0.1).text] ++ "]" := by
  have hfinite : (number 0.1).isFinite := by decide +kernel
  obtain ⟨hiff, hitems, -⟩ := text_eq_jsonText_iff (number 0.1) hfinite nofun
  have halone : (number 0.1).text = (number 0.1).jsonText := by
    refine hiff.2 ?_
    rintro x ⟨⟩
    decide +kernel
  refine ⟨hfinite, halone, ?_⟩
  rw [halone]
  exact hitems [null] []

/-- A number alone has another text than in a list. -/
theorem number_text_differs :
    (number 1e-7).isFinite ∧ (number 1e-7).text = "0.0000001" ∧
      (number 1e-7).jsonText = "1e-7" ∧ (array [number 1e-7]).text = "[1e-7]" := by
  decide +kernel

end Value
end RuleGraph

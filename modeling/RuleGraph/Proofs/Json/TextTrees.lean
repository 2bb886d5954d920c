import RuleGraph.Json.Variant
import RuleGraph.Proofs.Json.Rereading
import RuleGraph.Proofs.Json.TextTokens
import RuleGraph.Proofs.Json.Trees
/-!
# JSON text that is read back

A tree is read back from its text, with the members of its objects in the order of their keys, if
its decimals are read back from theirs and it does not nest too deeply. If it does, nothing is read.
-/
namespace RuleGraph.Json
open Text

/-- A number is read back from its text. -/
def ReadsBack (j : Json) : Prop :=
  numberOf (bytes j.chars) = some j

theorem ReadsBack.integer {n : Int} (hlow : -2 ^ 63 ≤ n) (hhigh : n < 2 ^ 64) :
    (Json.integer n).ReadsBack :=
  numberOf_intChars hlow hhigh

theorem ReadsBack.isFinite {x : Float} (h : (Json.decimal x).ReadsBack) : x.isFinite := by
  by_contra hx
  have hchars : (Json.decimal x).chars = "null".toList := if_neg hx
  rw [ReadsBack, hchars] at h
  cases h

/-- A decimal is read back exactly if its text is read as the nearest number. -/
theorem readsBack_decimal_iff {x : Float} (hx : x.isFinite) : (Json.decimal x).ReadsBack ↔
    numberOf (bytes (decimalChars x)) = (Number.read (decimalChars x)).map .decimal := by
  have hread : Number.read (decimalChars x) = some x := by
    rw [decimalChars, if_pos hx, Number.read_write decimalNotation hx]
  rw [hread]
  exact Iff.rfl

mutual

/-- The numbers in a tree, from left to right. -/
def numbers : Json → List Json
  | .integer n => [.integer n]
  | .decimal x => [.decimal x]
  | .array items => itemNumbers items
  | .object members => memberNumbers members
  | _ => []
termination_by structural j => j

def itemNumbers : List Json → List Json
  | [] => []
  | j :: rest => j.numbers ++ itemNumbers rest
termination_by structural items => items

def memberNumbers : List (String × Json) → List Json
  | [] => []
  | (_, j) :: rest => j.numbers ++ memberNumbers rest
termination_by structural members => members

end

mutual

/-- The tree with the members of its objects in the order of their keys. -/
def arranged : Json → Json
  | .array items => .array (arrangedItems items)
  | .object members => .object (Members.ofList (arrangedMembers members))
  | j => j
termination_by structural j => j

def arrangedItems : List Json → List Json
  | [] => []
  | j :: rest => j.arranged :: arrangedItems rest
termination_by structural items => items

def arrangedMembers : List (String × Json) → List (String × Json)
  | [] => []
  | (k, j) :: rest => (k, j.arranged) :: arrangedMembers rest
termination_by structural members => members

end

mutual

/-- The tokens that a tree is written with. -/
def spelling : Json → List Token
  | .null => [.null]
  | .bool b => [.bool b]
  | .integer n => [.number (bytes (Number.intChars n))]
  | .decimal x => [.number (bytes (decimalChars x))]
  | .string s => [.string (stringBytes s)]
  | .array items => .openArray :: (itemsSpelling items ++ [.closeArray])
  | .object members => .openObject :: (membersSpelling members ++ [.closeObject])
termination_by structural j => j

def itemsSpelling : List Json → List Token
  | [] => []
  | [j] => j.spelling
  | j :: rest => j.spelling ++ .comma :: itemsSpelling rest
termination_by structural items => items

def membersSpelling : List (String × Json) → List Token
  | [] => []
  | [(k, j)] => .string (stringBytes k) :: .colon :: j.spelling
  | (k, j) :: rest =>
    .string (stringBytes k) :: .colon :: (j.spelling ++ .comma :: membersSpelling rest)
termination_by structural members => members

end

mutual

/-- The tree as it is written. -/
def written : Json → Written
  | .null => .null
  | .bool b => .bool b
  | .integer n => .number (bytes (Number.intChars n))
  | .decimal x => .number (bytes (decimalChars x))
  | .string s => .string (stringBytes s)
  | .array items => .array (itemsWritten items)
  | .object members => .object (membersWritten members)
termination_by structural j => j

def itemsWritten : List Json → List Written
  | [] => []
  | j :: rest => j.written :: itemsWritten rest
termination_by structural items => items

def membersWritten : List (String × Json) → List (Bytes × Written)
  | [] => []
  | (k, j) :: rest => (stringBytes k, j.written) :: membersWritten rest
termination_by structural members => members

end

section
variable {b : UInt8} {t : Token} {rest bs : Bytes} {ts : List Token}

/-- The bytes in front are split into the tokens, whatever comes behind. -/
def SplitInto (bs : Bytes) (ts : List Token) (rest : Bytes) : Prop :=
  tokens (bs ++ rest) = (tokens rest).map (ts ++ ·)

theorem SplitInto.append {bs' : Bytes} {ts' : List Token} (h : SplitInto bs ts (bs' ++ rest))
    (h' : SplitInto bs' ts' rest) : SplitInto (bs ++ bs') (ts ++ ts') rest := by
  unfold SplitInto at h h' ⊢
  rw [List.append_assoc, h, h', Option.map_map]
  congr 1
  funext more
  exact (List.append_assoc ..).symm

theorem splitInto_nil (rest : Bytes) : SplitInto [] [] rest := by
  simp [SplitInto]

theorem SplitInto.mark (h : SplitInto bs ts rest) (ht : punctuation b = some t)
    (hb : isBlankByte b = false) : SplitInto (b :: bs) (t :: ts) rest := by
  have hcons : tokens (b :: (bs ++ rest)) = (tokens (bs ++ rest)).map (t :: ·) :=
    tokens_cons hb (by rw [nextToken, ht])
  rw [SplitInto, List.cons_append, hcons, h, Option.map_map]
  rfl

theorem splitInto_string (s : String) (rest : Bytes) :
    SplitInto (bytes (stringChars s)) [.string (stringBytes s)] rest := by
  have hbytes : bytes (stringChars s) = 0x22 :: (stringBytes s ++ [0x22]) := by
    rw [stringChars, bytes_cons_of_le (by decide), bytes_append]
    rfl
  rw [SplitInto, hbytes, List.cons_append, List.append_assoc]
  refine tokens_cons (by decide) ?_
  have hpunctuation : punctuation 0x22 = none := by decide +kernel
  rw [nextToken, hpunctuation]
  dsimp only
  rw [if_pos (by decide)]
  exact congrArg (Option.map _) (splitString_stringBytes s rest)

theorem endsNumeral_cons (hb : isNumberByte b = false) (rest : Bytes) :
    EndsNumeral (b :: rest) := by
  simp [EndsNumeral, hb]

theorem splitInto_word (b : UInt8) (word : String) (hb : isBlankByte b = false)
    (h : ∀ rest, nextToken b rest = (dropWord (ascii word) rest).map (t, ·)) (rest : Bytes) :
    SplitInto (b :: bytes word.toList) [t] rest := by
  refine tokens_cons hb ?_
  rw [← ascii_eq_bytes]
  have hprefix : (ascii word).isPrefixOf (ascii word ++ rest) = true :=
    List.isPrefixOf_iff_prefix.2 (List.prefix_append _ _)
  change nextToken b (ascii word ++ rest) = _
  rw [h, dropWord, if_pos hprefix, List.drop_left]
  rfl

end

mutual

/-- What a tree is written with are its tokens, unless another number follows. -/
theorem splitInto_chars {rest : Bytes} (hrest : EndsNumeral rest) :
    (j : Json) → (∀ k ∈ j.numbers, k.ReadsBack) → SplitInto (bytes j.chars) j.spelling rest
  | .null, _ => splitInto_word 0x6E "ull" (by decide) (fun _ => rfl) rest
  | .bool true, _ => splitInto_word 0x74 "rue" (by decide) (fun _ => rfl) rest
  | .bool false, _ => splitInto_word 0x66 "alse" (by decide) (fun _ => rfl) rest
  | .integer n, h =>
    tokens_numeral (isNumeral_intChars n) (h _ (List.mem_singleton_self _)) hrest
  | .decimal x, h =>
    have hx := h _ (List.mem_singleton_self _)
    tokens_numeral (isNumeral_decimalChars hx.isFinite) hx hrest
  | .string s, _ => splitInto_string s rest
  | .array items, h => by
    have hclose := (splitInto_nil rest).mark (b := 0x5D) rfl (by decide)
    have hitems := splitInto_itemChars (endsNumeral_cons (b := 0x5D) (by decide) rest) items h
    rw [chars, bytes_cons_of_le (by decide), bytes_append]
    exact (hitems.append hclose).mark rfl (by decide)
  | .object members, h => by
    have hclose := (splitInto_nil rest).mark (b := 0x7D) rfl (by decide)
    have hmembers :=
      splitInto_memberChars (endsNumeral_cons (b := 0x7D) (by decide) rest) members h
    rw [chars, bytes_cons_of_le (by decide), bytes_append]
    exact (hmembers.append hclose).mark rfl (by decide)
termination_by structural j => j

theorem splitInto_itemChars {rest : Bytes} (hrest : EndsNumeral rest) :
    (items : List Json) → (∀ k ∈ itemNumbers items, k.ReadsBack) →
      SplitInto (bytes (itemChars items)) (itemsSpelling items) rest
  | [], _ => splitInto_nil rest
  | [j], h => splitInto_chars hrest j (List.forall_mem_append.1 h).1
  | j :: k :: items, h => by
    rw [itemNumbers, List.forall_mem_append] at h
    have hitems := (splitInto_itemChars hrest (k :: items) h.2).mark (b := 0x2C) rfl (by decide)
    rw [itemChars.eq_3 _ _ (List.cons_ne_nil _ _), bytes_append, bytes_cons_of_le (by decide)]
    exact (splitInto_chars (endsNumeral_cons rfl _) j h.1).append hitems
termination_by structural items => items

theorem splitInto_memberChars {rest : Bytes} (hrest : EndsNumeral rest) :
    (members : List (String × Json)) → (∀ k ∈ memberNumbers members, k.ReadsBack) →
      SplitInto (bytes (memberChars members)) (membersSpelling members) rest
  | [], _ => splitInto_nil rest
  | [(key, j)], h => by
    rw [memberNumbers, List.forall_mem_append] at h
    have hj := (splitInto_chars hrest j h.1).mark (b := 0x3A) rfl (by decide)
    rw [memberChars, bytes_append, bytes_cons_of_le (by decide)]
    exact (splitInto_string key _).append hj
  | (key, j) :: m :: members, h => by
    rw [memberNumbers, List.forall_mem_append] at h
    have hmembers :=
      (splitInto_memberChars hrest (m :: members) h.2).mark (b := 0x2C) rfl (by decide)
    have hj := (splitInto_chars (endsNumeral_cons rfl _) j h.1).append hmembers
    rw [memberChars.eq_3 _ _ _ (List.cons_ne_nil _ _), bytes_append,
      bytes_cons_of_le (by decide), bytes_append, bytes_cons_of_le (by decide)]
    exact (splitInto_string key _).append (hj.mark rfl (by decide))
termination_by structural members => members

end

section
variable {r : Reading} {t : Token} {frames : List Frame}

def Reading.AsksValue (r : Reading) : Prop :=
  r.expected = .value ∨ r.expected = .firstItem

theorem Reading.AsksValue.step (hr : r.AsksValue) (h : r.close t = none) :
    r.step t = r.value t := by
  obtain ⟨expected, frames, result⟩ := r
  rcases hr with rfl | rfl
  · rfl
  · exact congrArg (Option.or · _) h

def Reading.AsksName (r : Reading) : Prop :=
  r.expected = .name ∨ r.expected = .firstName

theorem Reading.AsksName.step {members : List (Bytes × Written)} {name key : Bytes}
    (hr : r.AsksName) (hframes : r.frames = .object members name :: frames) :
    r.step (.string key) = some ⟨.colon, .object members key :: frames, none⟩ := by
  obtain ⟨expected, frames, result⟩ := r
  cases hframes
  rcases hr with rfl | rfl <;> rfl

end

mutual

/-- The tokens of a tree are read as it is written. -/
theorem foldlM_spelling {r : Reading} (hr : r.AsksValue) :
    (j : Json) → j.spelling.foldlM Reading.step r = some (r.put j.written)
  | .null => by
    rw [spelling, List.foldlM_cons, hr.step rfl]
    rfl
  | .bool _ => by
    rw [spelling, List.foldlM_cons, hr.step rfl]
    rfl
  | .integer _ => by
    rw [spelling, List.foldlM_cons, hr.step rfl]
    rfl
  | .decimal _ => by
    rw [spelling, List.foldlM_cons, hr.step rfl]
    rfl
  | .string _ => by
    rw [spelling, List.foldlM_cons, hr.step rfl]
    rfl
  | .array [] => by
    rw [spelling, List.foldlM_cons, hr.step rfl]
    rfl
  | .array (j :: items) => by
    rw [spelling, List.foldlM_cons, hr.step rfl]
    exact foldlM_itemsSpelling (r := ⟨.firstItem, .array [] :: r.frames, none⟩) (.inr rfl) rfl
      (j :: items) (List.cons_ne_nil _ _)
  | .object [] => by
    rw [spelling, List.foldlM_cons, hr.step rfl]
    rfl
  | .object (m :: members) => by
    rw [spelling, List.foldlM_cons, hr.step rfl]
    exact foldlM_membersSpelling (r := ⟨.firstName, .object [] [] :: r.frames, none⟩) (.inr rfl) rfl
      (m :: members) (List.cons_ne_nil _ _)
termination_by structural j => j

/-- The items that are still missing from an array, and its end. -/
theorem foldlM_itemsSpelling {r : Reading} {items : List Written} {frames : List Frame}
    (hr : r.AsksValue) (hframes : r.frames = .array items :: frames) :
    (js : List Json) → js ≠ [] → (itemsSpelling js ++ [Token.closeArray]).foldlM Reading.step r =
      some (Reading.put ⟨.separator, frames, none⟩ (.array (items.reverse ++ itemsWritten js)))
  | [], hne => absurd rfl hne
  | [j], _ => by
    rw [itemsSpelling, List.foldlM_append, foldlM_spelling hr j, Reading.put, hframes,
      itemsWritten, itemsWritten, ← List.reverse_cons]
    rfl
  | j :: k :: js, _ => by
    rw [itemsSpelling.eq_3 _ _ (List.cons_ne_nil _ _), List.append_assoc, List.foldlM_append,
      foldlM_spelling hr j, Reading.put, hframes, itemsWritten,
      List.append_cons items.reverse, ← List.reverse_cons]
    exact foldlM_itemsSpelling (r := ⟨.value, .array (j.written :: items) :: frames, none⟩)
      (.inl rfl) rfl (k :: js) (List.cons_ne_nil _ _)
termination_by structural js => js

theorem foldlM_membersSpelling {r : Reading} {members : List (Bytes × Written)} {name : Bytes}
    {frames : List Frame} (hr : r.AsksName) (hframes : r.frames = .object members name :: frames) :
    (ms : List (String × Json)) → ms ≠ [] →
      (membersSpelling ms ++ [Token.closeObject]).foldlM Reading.step r = some
        (Reading.put ⟨.separator, frames, none⟩ (.object (members.reverse ++ membersWritten ms)))
  | [], hne => absurd rfl hne
  | [(key, j)], _ => by
    rw [membersSpelling, membersWritten, membersWritten, ← List.reverse_cons, List.cons_append,
      List.foldlM_cons, hr.step hframes]
    have hj := foldlM_spelling (r := ⟨.value, .object members (stringBytes key) :: frames, none⟩)
      (.inl rfl) j
    change (j.spelling ++ [Token.closeObject]).foldlM Reading.step _ = _
    rw [List.foldlM_append, hj]
    rfl
  | (key, j) :: m :: ms, _ => by
    rw [membersSpelling.eq_3 _ _ _ (List.cons_ne_nil _ _), membersWritten,
      List.append_cons members.reverse, ← List.reverse_cons]
    rw [List.cons_append, List.foldlM_cons, hr.step hframes]
    have hj := foldlM_spelling (r := ⟨.value, .object members (stringBytes key) :: frames, none⟩)
      (.inl rfl) j
    change (j.spelling ++ .comma :: membersSpelling (m :: ms) ++ [Token.closeObject]).foldlM
      Reading.step _ = _
    rw [List.append_assoc, List.foldlM_append, hj]
    exact foldlM_membersSpelling
      (r := ⟨.name, .object ((stringBytes key, j.written) :: members) (stringBytes key) :: frames,
        none⟩) (.inl rfl) rfl (m :: ms) (List.cons_ne_nil _ _)
termination_by structural ms => ms

end

mutual

theorem toJson_written {limit : Nat} (hlimit : 0 < limit) :
    (j : Json) → (∀ k ∈ j.numbers, k.ReadsBack) →
      j.written.toJson limit = if j.depth < limit then some j.arranged else none
  | .null, _ => (if_pos hlimit).symm
  | .bool _, _ => (if_pos hlimit).symm
  | .integer _, h => (h _ (List.mem_singleton_self _)).trans (if_pos hlimit).symm
  | .decimal _, h => (h _ (List.mem_singleton_self _)).trans (if_pos hlimit).symm
  | .string s, _ => by
    rw [written, Written.toJson, stringOf_stringBytes]
    exact (if_pos hlimit).symm
  | .array items, h => by
    rw [written, Written.toJson, depth, arranged]
    split
    · rw [if_neg (by omega)]
    · rw [itemsToJson_itemsWritten (by omega) items h]
      simp only [Nat.lt_sub_iff_add_lt]
      split <;> rfl
  | .object members, h => by
    rw [written, Written.toJson, depth, arranged]
    split
    · rw [if_neg (by omega)]
    · rw [membersToJson_membersWritten (by omega) members h]
      simp only [Nat.lt_sub_iff_add_lt]
      split <;> rfl
termination_by structural j => j

theorem itemsToJson_itemsWritten {limit : Nat} (hlimit : 0 < limit) :
    (items : List Json) → (∀ k ∈ itemNumbers items, k.ReadsBack) →
      Written.itemsToJson limit (itemsWritten items) =
        if itemsDepth items < limit then some (arrangedItems items) else none
  | [], _ => (if_pos hlimit).symm
  | j :: rest, h => by
    rw [itemNumbers, List.forall_mem_append] at h
    rw [itemsWritten, Written.itemsToJson, toJson_written hlimit j h.1,
      itemsToJson_itemsWritten hlimit rest h.2, itemsDepth, arrangedItems]
    simp only [Nat.max_lt]
    by_cases hj : j.depth < limit <;> by_cases hrest : itemsDepth rest < limit <;>
      simp [hj, hrest]
termination_by structural items => items

theorem membersToJson_membersWritten {limit : Nat} (hlimit : 0 < limit) :
    (members : List (String × Json)) → (∀ k ∈ memberNumbers members, k.ReadsBack) →
      Written.membersToJson limit (membersWritten members) =
        if membersDepth members < limit then some (arrangedMembers members) else none
  | [], _ => (if_pos hlimit).symm
  | (key, j) :: rest, h => by
    rw [memberNumbers, List.forall_mem_append] at h
    rw [membersWritten, Written.membersToJson, stringOf_stringBytes, toJson_written hlimit j h.1,
      membersToJson_membersWritten hlimit rest h.2, membersDepth, arrangedMembers]
    simp only [Nat.max_lt]
    by_cases hj : j.depth < limit <;> by_cases hrest : membersDepth rest < limit <;>
      simp [hj, hrest]
termination_by structural members => members

end

theorem arrangedItems_eq_map (items : List Json) : arrangedItems items = items.map arranged := by
  induction items with
  | nil => rfl
  | cons j rest ih => rw [arrangedItems, List.map_cons, ih]

theorem arrangedMembers_eq_map (members : List (String × Json)) :
    arrangedMembers members = members.map fun m => (m.1, m.2.arranged) := by
  induction members with
  | nil => rfl
  | cons m rest ih => rw [arrangedMembers, List.map_cons, ih]

theorem WellFormed.arranged {j : Json} (h : j.WellFormed) : j.arranged = j := by
  induction h with
  | null | bool | integer | decimal | string => rfl
  | array h ih =>
    rw [Json.arranged, arrangedItems_eq_map, List.map_congr_left ih, List.map_id']
  | @object members hsorted h ih =>
    have hmembers : arrangedMembers members = members := by
      rw [arrangedMembers_eq_map]
      exact (List.map_congr_left fun m hm => congrArg (m.1, ·) (ih m hm)).trans (List.map_id' _)
    rw [Json.arranged, hmembers, Members.ofList_eq_self hsorted]

/-- A tree is read back from its text if it does not nest too deeply. -/
theorem read_text {j : Json} (hj : ∀ k ∈ j.numbers, k.ReadsBack) :
    Json.read j.text.toUTF8.toList = if j.depth < depthLimit then some j.arranged else none := by
  have hend : EndsNumeral [] := rfl
  have htokens : tokens (bytes j.chars ++ []) = _ := splitInto_chars hend j hj
  have hnil : tokens [] = some [] := by rw [tokens]
  rw [hnil, Option.map_some, List.append_nil, List.append_nil] at htokens
  have hread : Written.read (bytes j.chars) = some j.written := by
    have hstart := foldlM_spelling (r := .start) (.inl rfl) j
    rw [Written.read, htokens]
    exact congrArg (· >>= Reading.result) hstart
  have hbytes : j.text.toUTF8.toList = bytes j.chars := by
    rw [toList_toUTF8, text, String.toList_ofList]
  rw [Json.read, hbytes, hread]
  exact toJson_written (by decide) j hj

theorem membersDepth_lt {members : List (String × Json)} {limit : Nat} (hlimit : 0 < limit)
    (h : ∀ m ∈ members, m.2.depth < limit) : membersDepth members < limit := by
  induction members with
  | nil => exact hlimit
  | cons m rest ih =>
    obtain ⟨hm, hrest⟩ := List.forall_mem_cons.1 h
    exact Nat.max_lt.2 ⟨hm, ih hrest⟩

theorem depth_of_number {w : WrittenNumber} {j : Json} (h : w.toJson = some j) : j.depth = 0 := by
  have hdecimal {e : Int} {m : Nat} (he : (scaleDecimal m e).map (fun x =>
      .decimal (Number.withSign w.negative x)) = some j) : j.depth = 0 := by
    obtain ⟨x, -, rfl⟩ := Option.map_eq_some_iff.1 he
    rfl
  simp only [WrittenNumber.toJson] at h
  generalize (if w.negative = true then _ else true : Bool) = inRange at h
  split at h
  · cases h
    rfl
  · exact hdecimal h

mutual

theorem depth_lt_of_toJson {limit : Nat} (hlimit : 0 < limit) {j : Json} :
    (w : Written) → w.toJson limit = some j → j.depth < limit
  | .null, h | .bool _, h => by
    cases h
    exact hlimit
  | .number written, h => by
    obtain ⟨w, -, hw⟩ := Option.bind_eq_some_iff.1 h
    rwa [depth_of_number hw]
  | .string _, h => by
    obtain ⟨s, -, rfl⟩ := Option.map_eq_some_iff.1 h
    exact hlimit
  | .array items, h => by
    rw [Written.toJson] at h
    split at h
    · cases h
    · obtain ⟨js, hjs, rfl⟩ := Option.map_eq_some_iff.1 h
      have := itemsDepth_lt_of_toJson (by omega) items hjs
      rw [depth]
      omega
  | .object members, h => by
    rw [Written.toJson] at h
    split at h
    · cases h
    · obtain ⟨pairs, hpairs, rfl⟩ := Option.map_eq_some_iff.1 h
      have hmembers := membersDepth_lt_of_toJson (by omega) members hpairs
      have := membersDepth_lt (by omega) fun m hm => hmembers m (Members.mem_of_mem_ofList hm)
      rw [depth]
      omega

theorem itemsDepth_lt_of_toJson {limit : Nat} (hlimit : 0 < limit) {js : List Json} :
    (items : List Written) → Written.itemsToJson limit items = some js → itemsDepth js < limit
  | [], h => by
    cases h
    exact hlimit
  | w :: rest, h => by
    obtain ⟨j, hj, h⟩ := Option.bind_eq_some_iff.1 h
    obtain ⟨js, hjs, h⟩ := Option.bind_eq_some_iff.1 h
    cases h
    exact Nat.max_lt.2 ⟨depth_lt_of_toJson hlimit w hj, itemsDepth_lt_of_toJson hlimit rest hjs⟩

theorem membersDepth_lt_of_toJson {limit : Nat} (hlimit : 0 < limit)
    {pairs : List (String × Json)} : (members : List (Bytes × Written)) →
      Written.membersToJson limit members = some pairs → ∀ m ∈ pairs, m.2.depth < limit
  | [], h => by
    cases h
    exact List.forall_mem_nil _
  | (name, w) :: rest, h => by
    obtain ⟨key, -, h⟩ := Option.bind_eq_some_iff.1 h
    obtain ⟨j, hj, h⟩ := Option.bind_eq_some_iff.1 h
    obtain ⟨pairs, hpairs, h⟩ := Option.bind_eq_some_iff.1 h
    cases h
    exact List.forall_mem_cons.2
      ⟨depth_lt_of_toJson hlimit w hj, membersDepth_lt_of_toJson hlimit rest hpairs⟩

end

/-- What was read from any text is read again from the text that it has. -/
theorem read_text_of_read {bytes : Bytes} {j : Json} (h : Json.read bytes = some j)
    (hj : ∀ k ∈ j.numbers, k.ReadsBack) : Json.read j.text.toUTF8.toList = some j := by
  obtain ⟨w, -, hw⟩ := Option.bind_eq_some_iff.1 h
  rw [read_text hj, if_pos (depth_lt_of_toJson (by decide) w hw), (wellFormed_of_read h).arranged]

end RuleGraph.Json

import Mathlib.Order.Bounds.Defs
import RuleGraph.Proofs.Template.Strings
import RuleGraph.Proofs.Text.Bytes
/-!
# The first end outside of strings

A span ends at the first two closing braces that stand outside of the strings of its text, and it
has no end if there are none. Looking for them in the bytes of the text comes to the same place.
-/
namespace RuleGraph.Template
open Lexer Text

variable {c : Char} {cs front back : List Char} {i k : Nat}

/-- Whether two closing braces stand at a byte offset, outside of the strings in front of them. -/
def ClosesAt (cs : List Char) (offset : Nat) : Prop :=
  ∃ front back, cs = front ++ closing ++ back ∧ StringsClosed front ∧ byteCount front = offset

/-- The byte offset of the end of a span. -/
def closeOffset (cs : List Char) : Option Nat :=
  (bodyLength none cs).map fun k => byteCount (cs.take k)

theorem byteCount_take_le (cs : List Char) {k m : Nat} (h : k ≤ m) :
    byteCount (cs.take k) ≤ byteCount (cs.take m) := by
  obtain ⟨n, rfl⟩ := Nat.exists_eq_add_of_le h
  rw [List.take_add, byteCount_append]
  exact Nat.le_add_right _ _

theorem exists_closeOffset (h : ClosesAt cs i) : ∃ j ≤ i, closeOffset cs = some j := by
  obtain ⟨front, back, rfl, hfront, rfl⟩ := h
  have hsplit : front ++ closing ++ back = front ++ (closing ++ back) := List.append_assoc ..
  have htake : (front ++ closing ++ back).take front.length = front := by
    rw [hsplit, List.take_left]
  rcases bodyLength_of_stringsClosed hfront (closing ++ back) with ⟨k, hk, hlength⟩ | hlength
  · refine ⟨_, ?_, by rw [closeOffset, hsplit, hlength]; rfl⟩
    have hle := byteCount_take_le (front ++ closing ++ back) (Nat.le_of_lt hk)
    rwa [htake, hsplit] at hle
  · rw [bodyLength_closing, Option.map_some, Nat.zero_add, ← hsplit] at hlength
    exact ⟨_, Nat.le_refl _, by rw [closeOffset, hlength, Option.map_some, htake]⟩

theorem closesAt_of_closeOffset (h : closeOffset cs = some i) : ClosesAt cs i := by
  obtain ⟨k, hk, rfl⟩ := Option.map_eq_some_iff.1 h
  obtain ⟨front, back, rfl, hfront, rfl⟩ := exists_of_bodyLength hk
  exact ⟨front, back, rfl, hfront, by rw [List.append_assoc, List.take_left]⟩

theorem closeOffset_eq_some_iff : closeOffset cs = some i ↔ IsLeast {i | ClosesAt cs i} i := by
  constructor
  · intro h
    refine ⟨closesAt_of_closeOffset h, fun j hj => ?_⟩
    obtain ⟨j', hle, hj'⟩ := exists_closeOffset hj
    cases h.symm.trans hj'
    exact hle
  · rintro ⟨hcloses, hleast⟩
    obtain ⟨j, hle, hj⟩ := exists_closeOffset hcloses
    rw [hj, Nat.le_antisymm hle (hleast (closesAt_of_closeOffset hj))]

theorem closeOffset_eq_none_iff : closeOffset cs = none ↔ ∀ i, ¬ClosesAt cs i := by
  constructor
  · intro h i hi
    obtain ⟨j, -, hj⟩ := exists_closeOffset hi
    cases h.symm.trans hj
  · intro h
    cases hclose : closeOffset cs with
    | none => rfl
    | some i => exact absurd (closesAt_of_closeOffset hclose) (h i)

/-- The same search in bytes, where a backslash takes a single byte with it. -/
def closeInBytes : (quote : Option UInt8) → List UInt8 → Option Nat
  | _, [] => none
  | none, b :: bs =>
    if b = '\''.toUInt8 ∨ b = '"'.toUInt8 then (closeInBytes (some b) bs).map (· + 1)
    else if b = '\x7d'.toUInt8 ∧ bs.head? = some '\x7d'.toUInt8 then some 0
    else (closeInBytes none bs).map (· + 1)
  | some quote, b :: bs =>
    if b = '\\'.toUInt8 then
      match bs with
      | [] => none
      | _ :: rest => (closeInBytes (some quote) rest).map (· + 2)
    else (closeInBytes (if b = quote then none else some quote) bs).map (· + 1)

theorem map_byteCount_take (length : Option Nat) (front cs : List Char) :
    (length.map (· + front.length)).map (fun k => byteCount ((front ++ cs).take k)) =
      (length.map fun k => byteCount (cs.take k)).map (· + byteCount front) := by
  cases length with
  | none => rfl
  | some k =>
    simp only [Option.map_some, Nat.add_comm k, List.take_length_add_append, byteCount_append,
      Nat.add_comm (byteCount front)]

theorem closeInBytes_quoted {quote b : UInt8} (hb : b ≠ '\\'.toUInt8) (bs : List UInt8) :
    closeInBytes (some quote) (b :: bs) =
      (closeInBytes (if b = quote then none else some quote) bs).map (· + 1) := by
  rw [closeInBytes.eq_def]
  exact if_neg hb

theorem closeInBytes_append {bs : List UInt8} (hbs : ∀ b ∈ bs, 128 ≤ b) {quote : Option UInt8}
    (hquote : ∀ q ∈ quote, q < 128) (rest : List UInt8) :
    closeInBytes quote (bs ++ rest) = (closeInBytes quote rest).map (· + bs.length) := by
  induction bs with
  | nil => simp
  | cons b bs ih =>
    obtain ⟨hb, hbs⟩ := List.forall_mem_cons.1 hbs
    have hne {d : UInt8} (hd : d < 128) : b ≠ d := by
      rintro rfl
      exact UInt8.not_le.2 hd hb
    rw [List.cons_append]
    cases quote with
    | none =>
      rw [closeInBytes, if_neg (not_or.2 ⟨hne (by decide), hne (by decide)⟩),
        if_neg fun h => hne (by decide) h.1, ih hbs]
      exact map_add_map_add _ rfl
    | some quote =>
      rw [closeInBytes_quoted (hne (by decide)), if_neg (hne (hquote quote rfl)), ih hbs]
      exact map_add_map_add _ rfl

/-- The characters that the search stops at. -/
def marks : List Char :=
  ['\'', '"', '\\', '\x7d']

theorem le_of_mem_marks (h : c ∈ marks) : c.val ≤ 127 := by
  simp only [marks, List.mem_cons, List.not_mem_nil, or_false] at h
  rcases h with rfl | rfl | rfl | rfl <;> decide

theorem toUInt8_eq_iff {d : Char} (hc : c.val ≤ 127) (hd : d ∈ marks) :
    c.toUInt8 = d.toUInt8 ↔ c = d :=
  ⟨toUInt8_inj hc (le_of_mem_marks hd), congrArg _⟩

theorem exists_utf8EncodeChar (c : Char) : ∃ b bs, String.utf8EncodeChar c = b :: bs ∧
    bs.length + 1 = c.utf8Size ∧ ∀ b ∈ bs, 128 ≤ b := by
  have hlength := String.length_utf8EncodeChar c
  cases hbytes : String.utf8EncodeChar c with
  | nil =>
    have hpos := c.utf8Size_pos
    rw [hbytes, List.length_nil] at hlength
    omega
  | cons b bs =>
    refine ⟨b, bs, rfl, by rw [← hlength, hbytes, List.length_cons], ?_⟩
    by_cases hc : c.val ≤ 127
    · rw [utf8EncodeChar_of_le hc] at hbytes
      cases hbytes
      exact nofun
    · have hall := le_of_mem_utf8EncodeChar hc
      rw [hbytes] at hall
      exact (List.forall_mem_cons.1 hall).2

theorem head?_bytes {d : Char} (hd : d ∈ marks) :
    (bytes cs).head? = some d.toUInt8 ↔ cs.head? = some d := by
  cases cs with
  | nil => exact ⟨nofun, nofun⟩
  | cons c cs =>
    by_cases hc : c.val ≤ 127
    · simp [bytes_cons_of_le hc, toUInt8_eq_iff hc hd]
    · obtain ⟨b, bs, hbs, -⟩ := exists_utf8EncodeChar c
      have hb : 128 ≤ b := le_of_mem_utf8EncodeChar hc b (by simp [hbs])
      have hbyte : b ≠ d.toUInt8 := by
        rintro rfl
        exact UInt8.not_le.2 (toUInt8_lt (le_of_mem_marks hd)) hb
      have hchar : c ≠ d := by
        rintro rfl
        exact hc (le_of_mem_marks hd)
      simp [bytes_cons, hbs, hbyte, hchar]

theorem bodyLength_none_cons (c : Char) (cs : List Char) :
    bodyLength none (c :: cs) =
      if c = '\'' ∨ c = '"' then (bodyLength (some c) cs).map (· + 1)
      else if c = '\x7d' ∧ cs.head? = some '\x7d' then some 0
      else (bodyLength none cs).map (· + 1) := by
  split
  · next hquote => exact bodyLength_quote (by simpa using hquote)
  · next hquote =>
    split
    · next hend =>
      obtain ⟨rfl, hcs⟩ := hend
      obtain ⟨rest, rfl⟩ := List.head?_eq_some_iff.1 hcs
      rfl
    · next hend =>
      exact bodyLength_cons (Decidable.not_and_iff_not_or_not.1 hend) (by simpa using hquote)

theorem closeInBytes_none_cons (hc : c.val ≤ 127) (cs : List Char) :
    closeInBytes none (bytes (c :: cs)) =
      if c = '\'' ∨ c = '"' then (closeInBytes (some c.toUInt8) (bytes cs)).map (· + 1)
      else if c = '\x7d' ∧ cs.head? = some '\x7d' then some 0
      else (closeInBytes none (bytes cs)).map (· + 1) := by
  rw [bytes_cons_of_le hc, closeInBytes]
  simp only [toUInt8_eq_iff hc (show '\'' ∈ marks by decide),
    toUInt8_eq_iff hc (show '"' ∈ marks by decide),
    toUInt8_eq_iff hc (show '\x7d' ∈ marks by decide),
    head?_bytes (show '\x7d' ∈ marks by decide)]

theorem closeInBytes_some_cons {quote : Char} (hc : c.val ≤ 127) (hquote : quote ∈ marks)
    (hescape : c ≠ '\\') (cs : List Char) :
    closeInBytes (some quote.toUInt8) (bytes (c :: cs)) =
      (closeInBytes (if c = quote then none else some quote.toUInt8) (bytes cs)).map (· + 1) := by
  have hbyte : c.toUInt8 ≠ '\\'.toUInt8 := mt (toUInt8_eq_iff hc (by decide)).1 hescape
  rw [bytes_cons_of_le hc, closeInBytes_quoted hbyte]
  simp only [toUInt8_eq_iff hc hquote]

theorem bodyLength_of_not_le (hc : ¬c.val ≤ 127) {quote : Option Char}
    (hquote : ∀ q ∈ quote, q ∈ marks) (cs : List Char) :
    bodyLength quote (c :: cs) = (bodyLength quote cs).map (· + 1) := by
  have hne {d : Char} (hd : d ∈ marks) : c ≠ d := by
    rintro rfl
    exact hc (le_of_mem_marks hd)
  cases quote with
  | none =>
    rw [bodyLength_none_cons, if_neg (not_or.2 ⟨hne (by decide), hne (by decide)⟩),
      if_neg fun h => hne (by decide) h.1]
  | some q =>
    have hq : ¬(c == q) = true := by simpa using hne (hquote q rfl)
    rw [bodyLength_quoted (hne (by decide)), if_neg hq]

/-- The bytes behind a backslash that belong to one character are passed, the first of them
unseen. -/
theorem closeInBytes_escape {quote : UInt8} (hquote : quote < 128) (d : Char) (cs : List Char) :
    closeInBytes (some quote) (bytes ('\\' :: d :: cs)) =
      (closeInBytes (some quote) (bytes cs)).map (· + byteCount ['\\', d]) := by
  obtain ⟨b, bs, hbytes, hlength, hbs⟩ := exists_utf8EncodeChar d
  have hskip : closeInBytes (some quote) ('\\'.toUInt8 :: b :: (bs ++ bytes cs)) =
      (closeInBytes (some quote) (bs ++ bytes cs)).map (· + 2) := rfl
  have hpass : closeInBytes (some quote) (bs ++ bytes cs) =
      (closeInBytes (some quote) (bytes cs)).map (· + bs.length) :=
    closeInBytes_append hbs (fun _ hq => Option.some.inj hq ▸ hquote) _
  rw [bytes_cons_of_le (by decide), bytes_cons, hbytes, List.cons_append, hskip, hpass]
  refine map_add_map_add _ ?_
  have hsize : '\\'.utf8Size = 1 := rfl
  simp only [byteCount, List.foldr_cons, List.foldr_nil, hsize]
  omega

/-- The end that is found in the bytes of a text is the one that is found in its characters. -/
theorem closeInBytes_bytes {quote : Option Char} (hquote : ∀ q ∈ quote, q ∈ marks)
    (cs : List Char) : closeInBytes (quote.map Char.toUInt8) (bytes cs) =
      (bodyLength quote cs).map fun k => byteCount (cs.take k) := by
  -- A backslash takes the next character with it, so the induction is on the length.
  induction hlength : cs.length using Nat.strongRecOn generalizing cs quote with
  | ind length ih =>
    subst hlength
    have hlow : ∀ b ∈ quote.map Char.toUInt8, b < 128 := by
      intro b hb
      obtain ⟨q, hq, rfl⟩ := Option.map_eq_some_iff.1 hb
      exact toUInt8_lt (le_of_mem_marks (hquote q hq))
    cases cs with
    | nil => cases quote <;> rfl
    | cons c cs =>
      -- Passing `c` leads both searches to the next character.
      have hnext (quote : Option Char) (hquote : ∀ q ∈ quote, q ∈ marks) :
          (closeInBytes (quote.map Char.toUInt8) (bytes cs)).map (· + c.utf8Size) =
            ((bodyLength quote cs).map (· + 1)).map fun k => byteCount ((c :: cs).take k) := by
        rw [ih cs.length (Nat.lt_succ_self _) hquote cs rfl]
        exact (map_byteCount_take _ [c] cs).symm
      by_cases hc : c.val ≤ 127
      · rw [Char.utf8Size_eq_one_iff.2 hc] at hnext
        cases quote with
        | none =>
          rw [Option.map_none, closeInBytes_none_cons hc, bodyLength_none_cons]
          split
          · next hmark =>
            refine hnext (some c) fun q hq => ?_
            cases hq
            rcases hmark with rfl | rfl <;> decide
          · split
            · rfl
            · exact hnext none nofun
        | some q =>
          by_cases hescape : c = '\\'
          · subst hescape
            cases cs with
            | nil => rfl
            | cons d cs =>
              have hrest := ih cs.length (Nat.lt_succ_of_lt (Nat.lt_succ_self _)) hquote cs rfl
              rw [Option.map_some] at hrest ⊢
              rw [closeInBytes_escape (hlow _ rfl), hrest, bodyLength]
              exact (map_byteCount_take _ ['\\', d] cs).symm
          · rw [Option.map_some, closeInBytes_some_cons hc (hquote q rfl) hescape,
              bodyLength_quoted hescape]
            simp only [beq_iff_eq]
            split
            · exact hnext none nofun
            · exact hnext (some q) hquote
      · rw [bytes_cons, closeInBytes_append (le_of_mem_utf8EncodeChar hc) hlow,
          String.length_utf8EncodeChar, hnext quote hquote, bodyLength_of_not_le hc hquote]

theorem eq_nil_of_byteCount (h : byteCount cs = 0) : cs = [] := by
  cases cs with
  | nil => rfl
  | cons c cs =>
    have hpos := c.utf8Size_pos
    rw [byteCount_cons] at h
    omega

/-- Two beginnings of a text are the same if they have the same number of bytes. -/
theorem eq_of_byteCount_eq {front' back' : List Char} (h : front ++ back = front' ++ back')
    (hbytes : byteCount front = byteCount front') : front = front' := by
  obtain ⟨more, rfl, -⟩ | ⟨more, rfl, -⟩ := List.append_eq_append_iff.1 h
  all_goals
    rw [byteCount_append] at hbytes
    obtain rfl : more = [] := eq_nil_of_byteCount (by omega)
    rw [List.append_nil]

theorem stringsClosed_of_closeOffset (h : closeOffset (front ++ back) = some (byteCount front)) :
    StringsClosed front := by
  obtain ⟨front', back', hsplit, hfront, hbytes⟩ := closesAt_of_closeOffset h
  rw [List.append_assoc] at hsplit
  rwa [eq_of_byteCount_eq hsplit hbytes.symm]

/-- The end of a span is the first of the two closing braces outside of the strings of its text,
also if it is looked for in bytes, and there is none exactly if all of them are in strings. Braces
behind a text that is cut into tokens are outside of strings, and the text in front of the end is
not left inside of one. -/
theorem closeOffset_least (body : String) :
    closeInBytes none body.toUTF8.data.toList = closeOffset body.toList ∧
      (∀ i, closeOffset body.toList = some i ↔ IsLeast {i | ClosesAt body.toList i} i) ∧
      (closeOffset body.toList = none ↔ ∀ i, ¬ClosesAt body.toList i) ∧
      ∀ front back, body.toList = front ++ closing ++ back →
        (∀ tokens, Lexer.tokens (String.ofList front) = .ok tokens →
          ClosesAt body.toList (byteCount front)) ∧
        (closeOffset body.toList = some (byteCount front) → ∀ p fault,
          Lexer.tokens (String.ofList front) = .error (.malformed p fault) →
            fault.isOpen = false) := by
  refine ⟨?_, fun i => closeOffset_eq_some_iff, closeOffset_eq_none_iff,
    fun front back hbody => ⟨fun tokens htokens => ?_, fun hend p fault herror => ?_⟩⟩
  · rw [← bytes_toList]
    have hquote : ∀ q ∈ (none : Option Char), q ∈ marks := nofun
    exact closeInBytes_bytes hquote body.toList
  · rw [Lexer.tokens, String.toList_ofList] at htokens
    obtain ⟨ts, hts, -⟩ := lexed_of_tokensFrom htokens
    exact ⟨front, back, hbody, stringsClosed_of_lexed hts, rfl⟩
  · rw [hbody, List.append_assoc] at hend
    rw [Lexer.tokens, String.toList_ofList] at herror
    exact isOpen_of_tokensFrom (stringsClosed_of_closeOffset hend) herror

/-- A text with closing braces in both of its strings, one of them behind a quote of the other
kind. -/
def quotedBraces : String :=
  "'\x7d\x7d' + \"\\é'\x7d\x7d\" "

/-- A text that has a character of no token, and closing braces in its string. -/
def strayQuoted : String :=
  "@ '\\é\x7d\x7d'"

theorem quotedBraces_least :
    IsLeast {i | ClosesAt (quotedBraces ++ "\x7d\x7d \x7d\x7d").toList i} 16 ∧
      ClosesAt (quotedBraces ++ "\x7d\x7d \x7d\x7d").toList (byteCount quotedBraces.toList) ∧
      ∃ fault, Lexer.tokens strayQuoted = .error (.malformed 0 fault) ∧ fault.isOpen = false := by
  obtain ⟨-, hleast, -, hquoted⟩ := closeOffset_least (quotedBraces ++ "\x7d\x7d \x7d\x7d")
  obtain ⟨-, -, -, hstray⟩ := closeOffset_least (strayQuoted ++ "\x7d\x7d")
  refine ⟨(hleast 16).1 (by decide +kernel), ?_, .unknownCharacter '@', ?_⟩
  · cases htokens : Lexer.tokens quotedBraces with
    | error e =>
      have hok : (Lexer.tokens quotedBraces).isOk = true := by decide +kernel
      rw [htokens] at hok
      cases hok
    | ok tokens =>
      rw [← String.ofList_toList (s := quotedBraces)] at htokens
      exact (hquoted _ [' ', '\x7d', '\x7d'] (by decide +kernel)).1 tokens htokens
  · have herror : Lexer.tokens strayQuoted = .error (.malformed 0 (.unknownCharacter '@')) := by
      have hchars : strayQuoted.toList = '@' :: strayQuoted.toList.tail := by decide +kernel
      have hlexeme (cs : List Char) :
          lexeme 0 '@' cs = .error (.malformed 0 (.unknownCharacter '@')) := by
        rw [lexeme, if_neg (by decide), if_neg (by decide), if_neg (by decide +kernel)]
        rfl
      rw [Lexer.tokens, hchars, tokensFrom, if_neg (by decide), hlexeme]
    refine ⟨herror, ?_⟩
    rw [← String.ofList_toList (s := strayQuoted)] at herror
    exact (hstray strayQuoted.toList [] (by decide +kernel)).2 (by decide +kernel) 0 _ herror

end RuleGraph.Template

import Mathlib
import RuleGraph.Proofs.Parsing.Alternatives
/-!
# Tokens as parts of the text

The positions of its tokens cut a text into parts, so that nothing of it is lost. A part without the
blanks at its end is its token alone, and no text that begins there and goes on beyond the part is
one token.
-/
namespace RuleGraph

/-- A text without the blanks at its end. -/
def Text.trimEnd (s : String) : String :=
  String.ofList (s.toList.rdropWhile isBlank)

/-- The part of a text between two positions. -/
def Text.slice (s : String) (start stop : Nat) : String :=
  String.Pos.Raw.extract s ⟨start⟩ ⟨stop⟩

/-- The parts of a text between neighbouring positions. -/
def Text.slices (s : String) (positions : List Nat) : List String :=
  (positions.zip positions.tail).map fun (start, stop) => slice s start stop

namespace Lexer
open Text

/-- The text is one token and nothing else. -/
def IsToken (s : String) (t : Lexeme) : Prop :=
  tokens s = .ok [⟨t, 0⟩, ⟨.eof, s.utf8ByteSize⟩]

/-- The text is cut into the tokens, each as long as it can be. -/
structure CutInto (source : String) (tokens : List Token) : Prop where
  /-- The end is the last token and no other one, and it stands at the end of the text. -/
  ends : ∃ ts, tokens = ts ++ [⟨.eof, source.utf8ByteSize⟩] ∧ ∀ t ∈ ts, t.lexeme ≠ .eof
  increasing : tokens.Pairwise fun t u => t.position < u.position
  /-- Tokens begin between characters. -/
  isValid : ∀ t ∈ tokens, String.Pos.Raw.IsValid source ⟨t.position⟩
  /-- Nothing but blanks stands in front of the first token. -/
  front : ∀ t ∈ tokens.head?, allBlank (slice source 0 t.position)
  /-- Up to the blanks in front of the next one a token is what its part of the text is alone. -/
  alone : ∀ t u, (t, u) ∈ tokens.zip tokens.tail →
    IsToken (trimEnd (slice source t.position u.position)) t.lexeme
  /-- No longer part of the text is one token. -/
  longest : ∀ t u, (t, u) ∈ tokens.zip tokens.tail → ∀ stop v,
    String.Pos.Raw.IsValid source ⟨stop⟩ → IsToken (trimEnd (slice source t.position stop)) v →
      (trimEnd (slice source t.position stop)).utf8ByteSize ≤
        (trimEnd (slice source t.position u.position)).utf8ByteSize
  /-- The parts together are the text. -/
  lossless : String.join (slices source (0 :: tokens.map Token.position)) = source

variable {c : Char} {cs rest : List Char} {t : Lexeme} {n p : Nat} {ts : List Token}

theorem getLast?_of_stringBody {quote : Char} {value : List Char}
    (h : stringBody quote cs = .closed value cs.length) : cs.getLast? = some quote := by
  induction cs using stringBody.induct quote generalizing value with
  | case1 | case2 => cases h
  | case3 c cs ih =>
    obtain ⟨value', n', hbody, -, hn⟩ := StringBody.push_eq_closed.1 h
    obtain rfl : n' = cs.length := by simpa using hn
    rw [List.getLast?_cons, List.getLast?_cons, ih hbody]
    rfl
  | case4 c cs hend hmore hquote =>
    have hc : c ≠ '\\' := fun h => by cases cs <;> simp_all
    rw [stringBody_cons hc, if_pos hquote] at h
    obtain rfl : cs = [] := by
      injection h with _ hlength
      simpa using hlength.symm
    rw [List.getLast?_singleton, eq_of_beq hquote]
  | case5 c cs hend hmore hquote ih =>
    have hc : c ≠ '\\' := fun h => by cases cs <;> simp_all
    rw [stringBody_cons hc, if_neg hquote] at h
    obtain ⟨value', n', hbody, -, hn⟩ := StringBody.push_eq_closed.1 h
    obtain rfl : n' = cs.length := by simpa using hn
    rw [List.getLast?_cons, ih hbody]
    rfl

theorem isBlank_of_isInside (h : IsInside c) : isBlank c = false := by
  by_contra hblank
  have hends : EndsTokens [c] := endsTokens_of_isBlank (by simpa using hblank)
  rcases h with h | h
  · rw [hends.isNameChar c rfl] at h
    cases h
  · exact hends.notMem c rfl h

theorem Begins.isBlank_getLast (h : Begins c cs t n) (hn : n = cs.length)
    (hc : isBlank c = false) : ∀ d ∈ (c :: cs).getLast?, isBlank d = false := by
  have hinside (h : ∀ d ∈ cs.take n, IsInside d) :
      ∀ d ∈ (c :: cs).getLast?, isBlank d = false := by
    rw [hn, List.take_length] at h
    intro d hd
    rcases List.mem_cons.1 (List.mem_of_getLast? hd) with rfl | hd
    · exact hc
    · exact isBlank_of_isInside (h d hd)
  cases h with
  | number hdigit h => exact hinside (isInside_of_numberLength cs)
  | string hdigit hquote h =>
    rw [hn] at h
    have hlast := getLast?_of_stringBody h
    intro d hd
    rw [List.getLast?_cons, hlast] at hd
    cases hd
    exact hc
  | name hdigit hquote hletter =>
    refine hinside fun d hd => .inl ?_
    rw [← List.prefix_iff_eq_take.1 (List.takeWhile_prefix _)] at hd
    exact List.all_eq_true.1 List.all_takeWhile d hd
  | symbol hdigit hquote hletter h =>
    refine hinside fun d hd => .inr ?_
    rcases length_of_symbol h with rfl | ⟨rfl, d', hd', hmem⟩
    · cases hd
    · cases cs with
      | nil => cases hd'
      | cons e cs =>
        obtain rfl : e = d' := Option.some.inj hd'
        rw [List.take_succ_cons, List.take_zero, List.mem_singleton] at hd
        rwa [hd]

section
variable {front piece back blanks : List Char}

theorem byteCount_eq_utf8Len (cs : List Char) : byteCount cs = String.utf8Len cs := by
  induction cs with
  | nil => rfl
  | cons c cs ih => rw [byteCount_cons, String.utf8Len_cons, ih, Nat.add_comm]

theorem utf8ByteSize_ofList (cs : List Char) : (String.ofList cs).utf8ByteSize = byteCount cs := by
  rw [byteCount_eq_utf8Len, String.utf8ByteSize_ofList]

theorem slice_append (front piece back : List Char) :
    slice (String.ofList (front ++ (piece ++ back))) (byteCount front)
      (byteCount front + byteCount piece) = String.ofList piece := by
  rw [slice, byteCount_eq_utf8Len, byteCount_eq_utf8Len, ← List.append_assoc]
  exact String.extract_of_valid front piece back

theorem slice_of_le {source : String} {start stop : Nat} (h : stop ≤ start) :
    slice source start stop = "" := by
  rw [slice, String.Pos.Raw.extract]
  exact if_pos h

/-- The positions between characters are those behind a part of the text. -/
theorem isValid_iff {p : Nat} : String.Pos.Raw.IsValid (String.ofList cs) ⟨p⟩ ↔
    ∃ front back, cs = front ++ back ∧ p = byteCount front := by
  rw [String.Pos.Raw.isValid_iff_exists_append]
  constructor
  · rintro ⟨s, s', h, hp⟩
    refine ⟨s.toList, s'.toList, ?_, ?_⟩
    · rw [← String.toList_append, ← h, String.toList_ofList]
    · rw [← utf8ByteSize_ofList, String.ofList_toList]
      exact congrArg String.Pos.Raw.byteIdx hp
  · rintro ⟨front, back, rfl, rfl⟩
    exact ⟨_, _, String.ofList_append, by rw [← utf8ByteSize_ofList]; rfl⟩

theorem trimEnd_append (hblanks : ∀ d ∈ blanks, isBlank d)
    (hlast : ∀ d ∈ cs.getLast?, isBlank d = false) :
    trimEnd (String.ofList (cs ++ blanks)) = String.ofList cs := by
  have hreversed : ∀ d ∈ blanks.reverse, isBlank d := fun d hd =>
    hblanks d (List.mem_reverse.1 hd)
  have hcore : cs.rdropWhile isBlank = cs := by
    refine List.rdropWhile_eq_self_iff.2 fun hcs => ?_
    rw [hlast _ (List.getLast?_eq_some_getLast hcs)]
    exact Bool.false_ne_true
  rw [trimEnd, String.toList_ofList, List.rdropWhile, List.reverse_append,
    List.dropWhile_append_of_pos hreversed]
  exact congrArg String.ofList hcore

theorem exists_trimEnd (cs : List Char) : ∃ core blanks, cs = core ++ blanks ∧
    trimEnd (String.ofList cs) = String.ofList core ∧
    ∀ d ∈ core.getLast?, isBlank d = false := by
  refine ⟨cs.rdropWhile isBlank, cs.rtakeWhile isBlank,
    List.rdropWhile_append_rtakeWhile.symm, ?_, fun d hd => ?_⟩
  · rw [trimEnd, String.toList_ofList]
  · obtain ⟨hcore, rfl⟩ := List.mem_getLast?_eq_getLast hd
    exact Bool.eq_false_iff.2 (List.rdropWhile_last_not isBlank cs hcore)

end

theorem Lexed.forall_isBlank (h : Lexed p cs []) : ∀ d ∈ cs, isBlank d := by
  generalize hts : ([] : List Token) = ts at h
  induction h with
  | nil => exact nofun
  | blank hc h ih => exact List.forall_mem_cons.2 ⟨hc, ih hts⟩
  | token => cases hts

theorem Begins.unique {u : Lexeme} {m : Nat} (h : Begins c cs t n) (h' : Begins c cs u m) :
    t = u ∧ n = m := by
  have hok := lexeme_eq_ok_iff (p := 0) |>.2 h
  rw [lexeme_eq_ok_iff.2 h'] at hok
  cases hok
  exact ⟨rfl, rfl⟩

theorem isToken_iff : IsToken (String.ofList cs) t ↔ Lexed 0 cs [⟨t, 0⟩] := by
  rw [IsToken, tokens_eq_ok_iff, String.toList_ofList, utf8ByteSize_ofList]
  constructor
  · rintro ⟨ts, hts, h⟩
    have hone : [(⟨t, 0⟩ : Token)] ++ [⟨.eof, byteCount cs⟩] = ts ++ [⟨.eof, byteCount cs⟩] := h
    rwa [List.append_cancel_right hone]
  · intro h
    exact ⟨_, h, rfl⟩

theorem Begins.isToken (h : Begins c (cs ++ rest) t cs.length) (hc : isBlank c = false) :
    IsToken (String.ofList (c :: cs)) t := by
  have halone : Begins c (cs ++ []) t cs.length := by
    rw [List.append_nil]
    exact h.of_append (Nat.le_refl _)
  rw [isToken_iff, ← List.append_nil cs]
  exact .token hc halone .nil

theorem Begins.forall_isBlank {more : List Char} {u : Lexeme}
    (h : Begins c (cs ++ (more ++ rest)) t cs.length) (hc : isBlank c = false)
    (hu : IsToken (String.ofList (c :: (cs ++ more))) u) : ∀ d ∈ more, isBlank d := by
  have hpart : Begins c (cs ++ more) t cs.length := by
    rw [← List.append_assoc] at h
    exact h.of_append (by simp)
  rw [isToken_iff] at hu
  generalize hall : c :: (cs ++ more) = all at hu
  cases hu with
  | blank hd =>
    cases hall
    rw [hc] at hd
    cases hd
  | token hd hbegins hrest =>
    obtain ⟨rfl, hsplit⟩ := List.cons.inj hall
    rw [← hsplit] at hbegins
    obtain ⟨-, hlength⟩ := hpart.unique hbegins
    obtain ⟨-, rfl⟩ := List.append_inj hsplit hlength
    exact hrest.forall_isBlank

/-- The part is a token with blanks behind it, if the text goes on with `after`. -/
def IsPart (t : Lexeme) (part after : List Char) : Prop :=
  ∃ c cs blanks, part = c :: cs ++ blanks ∧ isBlank c = false ∧ (∀ d ∈ blanks, isBlank d) ∧
    Begins c (cs ++ (blanks ++ after)) t cs.length

/-- The tokens from a position on with their parts of the text; the end has none. -/
inductive Parts : (position : Nat) → List Token → List (List Char) → Prop
  | eof {p : Nat} : Parts p [⟨.eof, p⟩] []
  | token {p : Nat} {t : Lexeme} {part : List Char} {tokens : List Token}
    {parts : List (List Char)} (hpart : IsPart t part parts.flatten)
    (h : Parts (p + byteCount part) tokens parts) : Parts p (⟨t, p⟩ :: tokens) (part :: parts)

theorem Lexed.exists_parts (h : Lexed p cs ts) : ∃ blanks parts, cs = blanks ++ parts.flatten ∧
    (∀ d ∈ blanks, isBlank d) ∧
    Parts (p + byteCount blanks) (ts ++ [⟨.eof, p + byteCount cs⟩]) parts := by
  induction h with
  | nil => exact ⟨[], [], rfl, nofun, .eof⟩
  | @blank p c cs ts hc h ih =>
    obtain ⟨blanks, parts, rfl, hblanks, hparts⟩ := ih
    refine ⟨c :: blanks, parts, rfl, List.forall_mem_cons.2 ⟨hc, hblanks⟩, ?_⟩
    rwa [byteCount_cons, byteCount_cons, ← Nat.add_assoc, ← Nat.add_assoc]
  | @token p c cs rest t ts hc ht h ih =>
    obtain ⟨blanks, parts, rfl, hblanks, hparts⟩ := ih
    refine ⟨[], (c :: cs ++ blanks) :: parts, ?_, nofun, ?_⟩
    · simp
    · refine .token ⟨c, cs, blanks, rfl, hc, hblanks, ht⟩ ?_
      have hall : c :: (cs ++ (blanks ++ parts.flatten)) = c :: cs ++ (blanks ++ parts.flatten) :=
        rfl
      rw [byteCount_append (c :: cs), ← Nat.add_assoc, hall, byteCount_append (c :: cs),
        ← Nat.add_assoc]
      exact hparts

theorem IsPart.byteCount_pos {part after : List Char} (h : IsPart t part after) :
    0 < byteCount part := by
  obtain ⟨c, cs, blanks, rfl, -⟩ := h
  exact Nat.lt_of_lt_of_le c.utf8Size_pos (Nat.le_add_right _ _)

section
variable {tokens : List Token} {parts : List (List Char)}

theorem Parts.ne_nil (h : Parts p tokens parts) : tokens ≠ [] := by
  cases h <;> exact nofun

theorem Parts.position_head? (h : Parts p tokens parts) : ∀ u ∈ tokens.head?, u.position = p := by
  cases h <;> rintro _ ⟨⟩ <;> rfl

theorem Parts.exists_append (h : Parts p tokens parts) : ∀ u ∈ tokens, ∃ before after,
    parts.flatten = before ++ after ∧ u.position = p + byteCount before := by
  induction h with
  | eof =>
    intro u hu
    obtain rfl := List.mem_singleton.1 hu
    exact ⟨[], [], rfl, rfl⟩
  | @token p t part tokens parts hpart h ih =>
    refine List.forall_mem_cons.2 ⟨⟨[], _, rfl, rfl⟩, fun u hu => ?_⟩
    obtain ⟨before, after, hflatten, hposition⟩ := ih u hu
    refine ⟨part ++ before, after, ?_, ?_⟩
    · rw [List.flatten_cons, hflatten, List.append_assoc]
    · rw [hposition, byteCount_append, Nat.add_assoc]

theorem Parts.pairwise_position (h : Parts p tokens parts) :
    tokens.Pairwise fun t u => t.position < u.position := by
  induction h with
  | eof => exact List.pairwise_singleton _ _
  | token hpart h ih =>
    refine .cons (fun u hu => ?_) ih
    obtain ⟨before, after, -, hposition⟩ := h.exists_append u hu
    have hpos := hpart.byteCount_pos
    dsimp only
    omega

theorem Parts.exists_isPart (h : Parts p tokens parts) {t u : Token}
    (hmem : (t, u) ∈ tokens.zip tokens.tail) : ∃ before part after,
      parts.flatten = before ++ (part ++ after) ∧ IsPart t.lexeme part after ∧
      t.position = p + byteCount before ∧ u.position = t.position + byteCount part := by
  induction h with
  | eof => cases hmem
  | @token p s part tokens parts hpart h ih =>
    cases tokens with
    | nil => cases hmem
    | cons v tokens =>
      rw [List.tail_cons, List.zip_cons_cons] at hmem
      rcases List.mem_cons.1 hmem with heq | hmem
      · cases heq
        exact ⟨[], part, parts.flatten, rfl, hpart, rfl, h.position_head? u rfl⟩
      · obtain ⟨before, part', after, hflatten, hpart', ht, hu⟩ := ih hmem
        refine ⟨part ++ before, part', after, ?_, hpart', ?_, hu⟩
        · rw [List.flatten_cons, hflatten, List.append_assoc]
        · rw [ht, byteCount_append, Nat.add_assoc]

theorem Parts.slices_eq (h : Parts p tokens parts) {front : List Char}
    (hfront : byteCount front = p) :
    slices (String.ofList (front ++ parts.flatten)) (tokens.map Token.position) =
      parts.map String.ofList := by
  induction h generalizing front with
  | eof => rfl
  | @token p t part tokens parts hpart h ih =>
    cases tokens with
    | nil => exact absurd rfl h.ne_nil
    | cons u tokens =>
      have hu : u.position = byteCount front + byteCount part := by
        rw [h.position_head? u rfl, hfront]
      have hrest := @ih (front ++ part) (by rw [byteCount_append, hfront])
      rw [List.append_assoc] at hrest
      rw [List.map_cons (f := String.ofList), ← hrest, ← slice_append front part parts.flatten,
        ← hu]
      subst hfront
      rfl

end

theorem join_map_ofList (parts : List (List Char)) :
    String.join (parts.map String.ofList) = String.ofList parts.flatten := by
  rw [← String.toList_inj]
  simp [String.toList_join, List.flatMap_def]

theorem IsPart.exists_token {part after : List Char} (h : IsPart t part after) : ∃ c cs rest,
    part ++ after = c :: cs ++ rest ∧ isBlank c = false ∧ Begins c (cs ++ rest) t cs.length ∧
    trimEnd (String.ofList part) = String.ofList (c :: cs) := by
  obtain ⟨c, cs, blanks, rfl, hc, hblanks, hbegins⟩ := h
  have hlast := (hbegins.of_append (Nat.le_refl _)).isBlank_getLast rfl hc
  exact ⟨c, cs, blanks ++ after, List.append_assoc .., hc, hbegins, trimEnd_append hblanks hlast⟩

theorem IsPart.isToken {part after : List Char} (h : IsPart t part after) :
    IsToken (trimEnd (String.ofList part)) t := by
  obtain ⟨c, cs, rest, -, hc, hbegins, htrim⟩ := h.exists_token
  rw [htrim]
  exact hbegins.isToken hc

/-- What begins where a part begins and is one token is not longer than the part. -/
theorem IsPart.utf8ByteSize_le {part after piece back : List Char} {v : Lexeme}
    (h : IsPart t part after) (hpiece : part ++ after = piece ++ back)
    (hv : IsToken (trimEnd (String.ofList piece)) v) :
    (trimEnd (String.ofList piece)).utf8ByteSize ≤ (trimEnd (String.ofList part)).utf8ByteSize := by
  obtain ⟨c, cs, rest, hpart, hc, hbegins, htrim⟩ := h.exists_token
  obtain ⟨core, spaces, rfl, hcore, hlast⟩ := exists_trimEnd piece
  rw [hcore] at hv
  rw [htrim, hcore, utf8ByteSize_ofList, utf8ByteSize_ofList]
  rw [hpart, List.append_assoc] at hpiece
  rcases List.append_eq_append_iff.1 hpiece with ⟨more, rfl, hmore⟩ | ⟨more, hmore, -⟩
  · -- Behind the token only blanks could stand, but the text does not end with one.
    rw [hmore] at hbegins
    have hblank := hbegins.forall_isBlank hc hv
    cases more using List.reverseRecOn with
    | nil => rw [List.append_nil]
    | append_singleton more d _ =>
      have hd := hblank d (by simp)
      rw [← List.append_assoc, List.getLast?_concat] at hlast
      rw [hlast d rfl] at hd
      cases hd
  · rw [hmore, byteCount_append]
    exact Nat.le_add_right _ _

section
variable {front : List Char} {tokens : List Token} {parts : List (List Char)} {u : Token}

theorem Parts.exists_slice {t : Token} (h : Parts (byteCount front) tokens parts)
    (hmem : (t, u) ∈ tokens.zip tokens.tail) : ∃ before part after,
      front ++ parts.flatten = before ++ (part ++ after) ∧ t.position = byteCount before ∧
      slice (String.ofList (front ++ parts.flatten)) t.position u.position = String.ofList part ∧
      IsPart t.lexeme part after := by
  obtain ⟨before, part, after, hflatten, hpart, ht, hu⟩ := h.exists_isPart hmem
  have hall : front ++ parts.flatten = front ++ before ++ (part ++ after) := by
    rw [hflatten, List.append_assoc]
  rw [← byteCount_append] at ht
  refine ⟨front ++ before, part, after, hall, ht, ?_, hpart⟩
  rw [hall, hu, ht, slice_append]

theorem Parts.isToken {t : Token} (h : Parts (byteCount front) tokens parts)
    (hmem : (t, u) ∈ tokens.zip tokens.tail) :
    IsToken (trimEnd (slice (String.ofList (front ++ parts.flatten)) t.position u.position))
      t.lexeme := by
  obtain ⟨before, part, after, -, -, hslice, hpart⟩ := h.exists_slice hmem
  rw [hslice]
  exact hpart.isToken

theorem not_isToken_nil : ¬IsToken "" t := by
  intro h
  have htokens : Lexer.tokens "" = .ok [⟨.eof, 0⟩] := tokens_eq_ok_iff.2 ⟨[], .nil, rfl⟩
  rw [IsToken, htokens] at h
  cases h

theorem Parts.utf8ByteSize_le {t : Token} (h : Parts (byteCount front) tokens parts)
    (hmem : (t, u) ∈ tokens.zip tokens.tail) {stop : Nat} {v : Lexeme}
    (hstop : String.Pos.Raw.IsValid (String.ofList (front ++ parts.flatten)) ⟨stop⟩)
    (hv : IsToken (trimEnd (slice (String.ofList (front ++ parts.flatten)) t.position stop)) v) :
    (trimEnd (slice (String.ofList (front ++ parts.flatten)) t.position stop)).utf8ByteSize ≤
      (trimEnd (slice (String.ofList (front ++ parts.flatten)) t.position
        u.position)).utf8ByteSize := by
  obtain ⟨before, part, after, hall, ht, hslice, hpart⟩ := h.exists_slice hmem
  obtain ⟨upto, back, hupto, rfl⟩ := isValid_iff.1 hstop
  rw [hall] at hupto
  rw [hslice]
  rcases List.append_eq_append_iff.1 hupto with ⟨piece, rfl, hpiece⟩ | ⟨more, rfl, -⟩
  · have hpieceSlice : slice (String.ofList (front ++ parts.flatten)) t.position
        (byteCount (before ++ piece)) = String.ofList piece := by
      rw [hall, hpiece, ht, byteCount_append, slice_append]
    rw [hpieceSlice] at hv ⊢
    exact hpart.utf8ByteSize_le hpiece hv
  · rw [ht, slice_of_le (by rw [byteCount_append]; exact Nat.le_add_right _ _)] at hv
    exact absurd hv not_isToken_nil

end

/-- Every text that has tokens is cut into them. -/
theorem cutInto_of_tokens {source : String} {tokens : List Token}
    (h : Lexer.tokens source = .ok tokens) : CutInto source tokens := by
  obtain ⟨ts, hts, htokens⟩ := tokens_eq_ok_iff.1 h
  have hsize : byteCount source.toList = source.utf8ByteSize := by
    rw [← utf8ByteSize_ofList, String.ofList_toList]
  obtain ⟨front, parts, hsource, hfront, hparts⟩ := hts.exists_parts
  rw [Nat.zero_add, Nat.zero_add, ← htokens] at hparts
  obtain rfl : source = String.ofList (front ++ parts.flatten) := by
    rw [← hsource, String.ofList_toList]
  have hfrontSlice : slice (String.ofList (front ++ parts.flatten)) 0 (byteCount front) =
      String.ofList front := by
    have hslice := slice_append [] front parts.flatten
    rwa [List.nil_append, show byteCount [] = 0 from rfl, Nat.zero_add] at hslice
  refine {
    ends := ⟨ts, hsize ▸ htokens, fun t ht heof => hts.eof_notMem (List.mem_map.2 ⟨t, ht, heof⟩)⟩
    increasing := hparts.pairwise_position
    isValid := fun t ht => ?_
    front := fun t ht => ?_
    alone := fun t u => hparts.isToken
    longest := fun t u hmem stop v => hparts.utf8ByteSize_le hmem
    lossless := ?_ }
  · obtain ⟨before, after, hflatten, hposition⟩ := hparts.exists_append t ht
    refine isValid_iff.2 ⟨front ++ before, after, ?_, ?_⟩
    · rw [hflatten, List.append_assoc]
    · rw [hposition, byteCount_append]
  · rw [hparts.position_head? t ht, hfrontSlice, allBlank, String.toList_ofList]
    exact List.all_eq_true.2 hfront
  · cases tokens with
    | nil => exact absurd rfl hparts.ne_nil
    | cons t tokens =>
      have hslices : slices (String.ofList (front ++ parts.flatten))
          (0 :: (t :: tokens).map Token.position) = (front :: parts).map String.ofList := by
        rw [List.map_cons (f := String.ofList), ← hparts.slices_eq rfl, ← hfrontSlice,
          ← hparts.position_head? t rfl]
        rfl
      rw [hslices, join_map_ofList, List.flatten_cons]

/-- A name of letters of two bytes, an interval, an exponent with a name behind it, and a string
with an escape and blanks. -/
def adjacent : String :=
  " größe==1_0..2.5e3e'\\' ' .x? "

theorem adjacent_cutInto : ∃ tokens, Lexer.tokens adjacent = .ok tokens ∧
    CutInto adjacent tokens ∧
    tokens.map Token.position = [1, 8, 10, 13, 15, 20, 21, 27, 28, 29, 31] := by
  have hpositions : (Lexer.tokens adjacent).toOption.map (List.map Token.position) =
      some [1, 8, 10, 13, 15, 20, 21, 27, 28, 29, 31] := by
    decide +kernel
  cases htokens : Lexer.tokens adjacent with
  | error e =>
    rw [htokens] at hpositions
    cases hpositions
  | ok tokens =>
    rw [htokens] at hpositions
    exact ⟨tokens, rfl, cutInto_of_tokens htokens, Option.some.inj hpositions⟩

end Lexer
end RuleGraph

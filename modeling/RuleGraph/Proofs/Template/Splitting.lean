import Mathlib.Data.List.Chain
import Mathlib.Data.List.Forall2
import RuleGraph.Proofs.Parsing.Failures
import RuleGraph.Proofs.Template.Strings
/-!
# The segments of a text

A template is its text cut into segments, each of which can be written back. If a span has no end,
the text in front of it is a template.
-/
namespace RuleGraph

namespace Template
open Lexer Text

variable {before inside body rest cs : List Char} {k n p : Nat}

/-- Whether an opening behind a text is the first one. -/
def OpensAfter (before : List Char) : Prop :=
  ¬opening <:+: before ++ ['\x7b']

theorem opensAfter_nil : OpensAfter [] :=
  fun h => absurd h.length_le (by decide)

theorem OpensAfter.plain (h : OpensAfter before) : ¬opening <:+: before :=
  fun hbefore => h (hbefore.trans (List.prefix_append _ _).isInfix)

theorem textLength_eq_none_iff : textLength cs = none ↔ ¬opening <:+: cs := by
  induction cs with
  | nil => simp [textLength, opening]
  | cons c cs ih =>
    rw [textLength, List.infix_cons_iff, ← List.isPrefixOf_iff_prefix]
    split <;> simp_all

theorem textLength_of_opensAfter (h : OpensAfter before) (inside : List Char) :
    textLength (before ++ (opening ++ inside)) = some before.length := by
  induction before with
  | nil => rfl
  | cons c before ih =>
    rw [OpensAfter, List.cons_append, List.infix_cons_iff, not_or] at h
    have hnot : ¬opening.isPrefixOf (c :: (before ++ (opening ++ inside))) = true := by
      rw [List.isPrefixOf_iff_prefix]
      intro hprefix
      have hbrace : c :: (before ++ ['\x7b']) <+: c :: (before ++ (opening ++ inside)) :=
        ⟨'\x7b' :: inside, by simp [opening]⟩
      exact h.1 (List.prefix_of_prefix_length_le hprefix hbrace (by simp [opening]))
    rw [List.cons_append, textLength, if_neg hnot, ih h.2]
    rfl

theorem exists_of_textLength (h : textLength cs = some n) :
    ∃ before inside, cs = before ++ (opening ++ inside) ∧ OpensAfter before := by
  induction cs generalizing n with
  | nil => cases h
  | cons c cs ih =>
    rw [textLength] at h
    split at h
    · next hopening =>
      obtain ⟨inside, hinside⟩ := List.isPrefixOf_iff_prefix.1 hopening
      exact ⟨[], inside, hinside.symm, opensAfter_nil⟩
    · next hopening =>
      obtain ⟨m, hm, -⟩ := Option.map_eq_some_iff.1 h
      obtain ⟨before, inside, rfl, hbefore⟩ := ih hm
      refine ⟨c :: before, inside, rfl, ?_⟩
      rw [OpensAfter, List.cons_append, List.infix_cons_iff, not_or]
      refine ⟨fun hprefix => hopening (List.isPrefixOf_iff_prefix.2 ?_), hbefore⟩
      exact hprefix.trans ⟨'\x7b' :: inside, by simp [opening]⟩

theorem map_add_eq_some_iff {length length' : Option Nat} {m d : Nat}
    (h : ∀ {k}, length = some k ∧ k + 2 ≤ m ↔ length' = some k) :
    length.map (· + d) = some k ∧ k + 2 ≤ m + d ↔ length'.map (· + d) = some k := by
  simp only [Option.map_eq_some_iff, ← h]
  constructor
  · rintro ⟨⟨k, hk, rfl⟩, hle⟩
    exact ⟨k, ⟨hk, by omega⟩, rfl⟩
  · rintro ⟨k, ⟨hk, hle⟩, rfl⟩
    exact ⟨⟨k, hk, rfl⟩, by omega⟩

/-- What stands behind the end of a span makes no difference to it. -/
theorem bodyLength_append_eq_some_iff {quote : Option Char} :
    bodyLength quote (cs ++ rest) = some k ∧ k + 2 ≤ cs.length ↔ bodyLength quote cs = some k := by
  fun_induction bodyLength quote cs generalizing k with
  | case1 => simp
  | case2 cs =>
    constructor
    · exact And.left
    · rintro ⟨⟩
      exact ⟨rfl, Nat.le_add_left _ _⟩
  | case3 c cs hend ih =>
    cases cs with
    | nil => simp [bodyLength]
    | cons d cs =>
      rw [List.cons_append, bodyLength]
      · exact map_add_eq_some_iff ih
      · rintro tail rfl htail
        cases htail
        exact hend cs rfl rfl
  | case4 => simp
  | case5 q c cs ih => exact map_add_eq_some_iff ih
  | case6 q c cs hone hmore ih =>
    have hc : c ≠ '\\' := by
      rintro rfl
      cases cs with
      | nil => exact hone rfl rfl
      | cons d cs => exact hmore d cs rfl rfl
    rw [List.cons_append, bodyLength_quoted hc]
    exact map_add_eq_some_iff ih

/-- Whether closing braces behind a text are the end of a span that has the text in it. -/
def IsBody (body : List Char) : Prop :=
  bodyLength none (body ++ closing) = some body.length

theorem IsBody.bodyLength (h : IsBody body) (rest : List Char) :
    bodyLength none (body ++ (closing ++ rest)) = some body.length := by
  rw [← List.append_assoc]
  exact (bodyLength_append_eq_some_iff.2 h).1

theorem exists_of_bodyLength_eq_some (h : bodyLength none inside = some k) :
    ∃ body rest, inside = body ++ (closing ++ rest) ∧ IsBody body := by
  obtain ⟨body, rest, rfl, -, rfl⟩ := exists_of_bodyLength h
  refine ⟨body, rest, List.append_assoc .., bodyLength_append_eq_some_iff.1 ⟨h, ?_⟩⟩
  rw [List.length_append]
  exact Nat.le_refl _

/-- Each text is plain, or a span begins in it, which has no end or is followed by such a text. -/
inductive Spanned : List Char → Prop
  | plain {cs : List Char} (h : ¬opening <:+: cs) : Spanned cs
  | unclosed {before inside : List Char} (hbefore : OpensAfter before)
    (hinside : bodyLength none inside = none) : Spanned (before ++ (opening ++ inside))
  | span {before body rest : List Char} (hbefore : OpensAfter before) (hbody : IsBody body)
    (h : Spanned rest) : Spanned (before ++ (opening ++ (body ++ (closing ++ rest))))

theorem spanned (cs : List Char) : Spanned cs := by
  induction hlength : cs.length using Nat.strongRecOn generalizing cs with
  | ind length ih =>
    subst hlength
    cases htext : textLength cs with
    | none => exact .plain (textLength_eq_none_iff.1 htext)
    | some n =>
      obtain ⟨before, inside, rfl, hbefore⟩ := exists_of_textLength htext
      cases hinside : bodyLength none inside with
      | none => exact .unclosed hbefore hinside
      | some k =>
        obtain ⟨body, rest, rfl, hbody⟩ := exists_of_bodyLength_eq_some hinside
        refine .span hbefore hbody (ih rest.length ?_ rest rfl)
        simp only [List.length_append, opening, List.length_cons]
        omega

theorem drop_append_mark (mark : List Char) (hmark : mark.length = 2) (front back : List Char) :
    (front ++ (mark ++ back)).drop (front.length + 2) = back := by
  rw [← List.append_assoc, List.drop_left' (by rw [List.length_append, hmark])]

theorem segmentsFrom_plain (h : ¬opening <:+: cs) (p : Nat) :
    segmentsFrom p cs = .ok (textSegment cs) := by
  rw [segmentsFrom]
  split
  · rfl
  · next n hn =>
    rw [textLength_eq_none_iff.2 h] at hn
    cases hn

theorem segmentsFrom_unclosed (hbefore : OpensAfter before)
    (hinside : bodyLength none inside = none) (p : Nat) :
    segmentsFrom p (before ++ (opening ++ inside)) =
      .error (.unclosedSpan (p + byteCount before)) := by
  have htext := textLength_of_opensAfter hbefore inside
  rw [segmentsFrom]
  split
  · next hnone =>
    rw [htext] at hnone
    cases hnone
  · next n hn =>
    obtain rfl : before.length = n := Option.some.inj (htext.symm.trans hn)
    simp only [List.take_left, drop_append_mark opening rfl, hinside]

theorem segmentsFrom_closed (hbefore : OpensAfter before) (hbody : IsBody body)
    (rest : List Char) (p : Nat) :
    segmentsFrom p (before ++ (opening ++ (body ++ (closing ++ rest)))) = (do
      let e ← Expr.parse (String.ofList body)
      let segments ← segmentsFrom (p + byteCount before + byteCount body + 4) rest
      return textSegment before ++ .span e :: segments) := by
  have hdrop := drop_append_mark opening rfl before (body ++ (closing ++ rest))
  have hlength := hbody.bodyLength rest
  rw [← hdrop] at hlength
  rw [segmentsFrom_of_bodyLength (textLength_of_opensAfter hbefore _) hlength, hdrop]
  simp only [List.take_left, drop_append_mark closing rfl]

end Template

namespace Segment
open Template

/-- How a segment is written. -/
inductive IsWritten : Segment → List Char → Prop
  | text {cs : List Char} (hne : cs ≠ []) (hplain : ¬opening <:+: cs) :
    IsWritten (.text (String.ofList cs)) cs
  | span {body : List Char} {e : Expr} (hbody : IsBody body)
    (he : Expr.parse (String.ofList body) = .ok e) :
    IsWritten (.span e) (opening ++ (body ++ closing))

/-- Whether a segment may stand directly in front of another one. Texts are not next to each other,
and a text ends where the opening of the span behind it begins. -/
def Precedes : Segment → Segment → Prop
  | .text _, .text _ => False
  | .text s, .span _ => OpensAfter s.toList
  | .span _, _ => True

end Segment

namespace Template
open Lexer Text

variable {before cs : List Char} {template : Template} {p q : Nat} {e : Expr}

theorem isChain_textSegment_append (hbefore : OpensAfter before)
    (h : template.IsChain Segment.Precedes) :
    (textSegment before ++ .span e :: template).IsChain Segment.Precedes := by
  have hspan : (Segment.span e :: template).IsChain Segment.Precedes :=
    List.isChain_cons.2 ⟨fun _ _ => trivial, h⟩
  unfold textSegment
  split
  · exact hspan
  · refine List.isChain_cons_cons.2 ⟨?_, hspan⟩
    rwa [Segment.Precedes, String.toList_ofList]

theorem exists_written_textSegment (h : ¬opening <:+: cs) :
    ∃ written, written.flatten = cs ∧ List.Forall₂ Segment.IsWritten (textSegment cs) written := by
  unfold textSegment
  split
  · next hempty => exact ⟨[], (List.isEmpty_iff.1 hempty).symm, .nil⟩
  · next hempty =>
    exact ⟨[cs], List.flatten_singleton, .cons (.text (by simpa using hempty) h) .nil⟩

theorem exists_written (h : segmentsFrom p cs = .ok template) :
    ∃ written, written.flatten = cs ∧ List.Forall₂ Segment.IsWritten template written ∧
      template.IsChain Segment.Precedes := by
  induction spanned cs generalizing p template with
  | plain hplain =>
    rw [segmentsFrom_plain hplain] at h
    cases h
    obtain ⟨written, hcs, hwritten⟩ := exists_written_textSegment hplain
    refine ⟨written, hcs, hwritten, ?_⟩
    unfold textSegment
    split
    · exact .nil
    · exact .singleton _
  | unclosed hbefore hinside =>
    rw [segmentsFrom_unclosed hbefore hinside] at h
    cases h
  | @span before body rest hbefore hbody hrest ih =>
    rw [segmentsFrom_closed hbefore hbody] at h
    obtain ⟨e, he, h⟩ := bind_eq_ok.1 h
    obtain ⟨segments, hsegments, h⟩ := bind_eq_ok.1 h
    cases h
    obtain ⟨more, rfl, hmore, hchain⟩ := ih hsegments
    obtain ⟨written, hbefore', hwritten⟩ := exists_written_textSegment hbefore.plain
    refine ⟨written ++ (opening ++ (body ++ closing)) :: more, ?_,
      List.rel_append hwritten (.cons (.span hbody he) hmore),
      isChain_textSegment_append hbefore hchain⟩
    rw [List.flatten_append, hbefore', List.flatten_cons]
    simp only [List.append_assoc]

theorem exists_parse_of_span_mem (h : segmentsFrom p cs = .ok template)
    (he : .span e ∈ template) : ∃ source, Expr.parse source = .ok e := by
  obtain ⟨written, -, hwritten, -⟩ := exists_written h
  clear h
  induction hwritten with
  | nil => cases he
  | cons ha _ ih =>
    rcases List.mem_cons.1 he with rfl | he
    · cases ha with
      | span _ hparse => exact ⟨_, hparse⟩
    · exact ih he

/-- What is written is read as its segments. In the induction a text that has been passed stands in
front of what is still to be read, and its end is not known before the next segment is. -/
theorem segmentsFrom_flatten {written : List (List Char)}
    (h : List.Forall₂ Segment.IsWritten template written)
    (hchain : template.IsChain Segment.Precedes) (hbefore : ¬opening <:+: before)
    (hhead : before = [] ∨ ∀ a ∈ template.head?, (Segment.text (String.ofList before)).Precedes a) :
    segmentsFrom p (before ++ written.flatten) = .ok (textSegment before ++ template) := by
  induction h generalizing before p with
  | nil =>
    rw [List.flatten_nil, List.append_nil, List.append_nil]
    exact segmentsFrom_plain hbefore p
  | @cons a w template written ha h ih =>
    obtain ⟨hnext, htail⟩ := List.isChain_cons.1 hchain
    cases ha with
    | @text _ hne hplain =>
      obtain rfl : before = [] := hhead.resolve_right fun h => h _ rfl
      have hsegment : textSegment w = [.text (String.ofList w)] := if_neg (by simpa using hne)
      have hread := ih (p := p) htail hplain (.inr hnext)
      rwa [hsegment] at hread
    | @span body e hbody he =>
      have hopens : OpensAfter before := by
        rcases hhead with rfl | hhead
        · exact opensAfter_nil
        · have hprecedes := hhead _ rfl
          rwa [Segment.Precedes, String.toList_ofList] at hprecedes
      have hsplit : before ++ ((opening ++ (body ++ closing)) :: written).flatten =
          before ++ (opening ++ (body ++ (closing ++ written.flatten))) := by
        simp only [List.flatten_cons, List.append_assoc]
      have hread (p : Nat) : segmentsFrom p written.flatten = .ok template :=
        ih htail opensAfter_nil.plain (.inl rfl)
      rw [hsplit, segmentsFrom_closed hopens hbody, he]
      simp only [ok_bind, hread, pure_eq_ok]

theorem exists_of_unclosedSpan (h : segmentsFrom p cs = .error (.unclosedSpan q)) :
    ∃ front inside, cs = front ++ (opening ++ inside) ∧ p + byteCount front = q ∧
      (∀ p', ∃ segments, segmentsFrom p' front = .ok segments) ∧
      bodyLength none inside = none := by
  induction spanned cs generalizing p with
  | plain hplain =>
    rw [segmentsFrom_plain hplain] at h
    cases h
  | @unclosed before inside hbefore hinside =>
    rw [segmentsFrom_unclosed hbefore hinside] at h
    cases h
    exact ⟨before, inside, rfl, rfl, fun p' => ⟨_, segmentsFrom_plain hbefore.plain p'⟩, hinside⟩
  | @span before body rest hbefore hbody hrest ih =>
    rw [segmentsFrom_closed hbefore hbody] at h
    cases he : Expr.parse (String.ofList body) with
    | error x =>
      rw [he] at h
      cases h
      exact absurd (Expr.failsOnly_parse _ _ he) id
    | ok e =>
      rw [he, ok_bind] at h
      cases hsegments : segmentsFrom (p + byteCount before + byteCount body + 4) rest with
      | ok segments =>
        rw [hsegments] at h
        cases h
      | error x =>
        rw [hsegments] at h
        cases h
        obtain ⟨front, inside, rfl, rfl, hfront, hinside⟩ := ih hsegments
        refine ⟨before ++ (opening ++ (body ++ (closing ++ front))), inside, ?_, ?_,
          fun p' => ?_, hinside⟩
        · simp only [List.append_assoc]
        · have hmarks : byteCount opening = 2 ∧ byteCount closing = 2 := ⟨rfl, rfl⟩
          simp only [byteCount_append, hmarks]
          omega
        · obtain ⟨segments, hread⟩ := hfront (p' + byteCount before + byteCount body + 4)
          rw [segmentsFrom_closed hbefore hbody, he, ok_bind, hread]
          exact ⟨_, rfl⟩

/-- A template is what its segments are when they are written, one after the other, and a text whose
segments are so written is read as them. If a span of a text has no end, then its opening stands at
the position that is named, and a template stands in front of it. -/
theorem parse_lossless (source : String) :
    (∀ template, parse source = .ok template ↔
      ∃ written, written.flatten = source.toList ∧
        List.Forall₂ Segment.IsWritten template written ∧ template.IsChain Segment.Precedes) ∧
    ∀ position, parse source = .error (.unclosedSpan position) →
      ∃ front inside, source.toList = front ++ (opening ++ inside) ∧
        byteCount front = position ∧ (∃ template, parse (String.ofList front) = .ok template) ∧
        bodyLength none inside = none := by
  refine ⟨fun template => ⟨exists_written, ?_⟩, fun position h => ?_⟩
  · rintro ⟨written, hsource, hwritten, hchain⟩
    have hread : segmentsFrom 0 ([] ++ written.flatten) = .ok (textSegment [] ++ template) :=
      segmentsFrom_flatten hwritten hchain opensAfter_nil.plain (.inl rfl)
    rw [parse, ← hsource]
    exact hread
  · obtain ⟨front, inside, hsource, hposition, hfront, hinside⟩ := exists_of_unclosedSpan h
    refine ⟨front, inside, hsource, by rwa [Nat.zero_add] at hposition, ?_, hinside⟩
    rw [parse, String.toList_ofList]
    exact hfront 0

/-- A text with a brace in front of a span that has closing braces in a string. -/
def quotedSpan : String :=
  "é\x7b \x7b\x7b '\x7d\x7d' \x7d\x7d"

/-- The same text in front of a span that ends inside of a string. -/
def openSpan : String :=
  quotedSpan ++ "\x7b\x7b\x7b '\x7d\x7d"

theorem quotedSpan_lossless :
    (∃ template written, parse quotedSpan = .ok template ∧ written.flatten = quotedSpan.toList ∧
      List.Forall₂ Segment.IsWritten template written ∧ template.IsChain Segment.Precedes) ∧
    ∃ front inside, openSpan.toList = front ++ (opening ++ inside) ∧ byteCount front = 14 ∧
      (∃ template, parse (String.ofList front) = .ok template) ∧ bodyLength none inside = none := by
  have hok : (parse quotedSpan).isOk = true := by decide +kernel
  have hopen : (match parse openSpan with
    | .error (.unclosedSpan position) => some position
    | _ => none) = some 14 := by decide +kernel
  constructor
  · cases hparse : parse quotedSpan with
    | error x =>
      rw [hparse] at hok
      cases hok
    | ok template =>
      obtain ⟨written, hwritten⟩ := ((parse_lossless quotedSpan).1 template).1 hparse
      exact ⟨template, written, rfl, hwritten⟩
  · split at hopen
    · next position hparse =>
      cases hopen
      exact (parse_lossless openSpan).2 14 hparse
    · cases hopen

end Template
end RuleGraph

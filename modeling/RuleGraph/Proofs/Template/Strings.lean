import RuleGraph.Proofs.Template.Span
/-!
# Strings in the body of a span

The strings of a text are passed as a whole, both by the search for the end of a span and by the
reading of tokens. So an end that is found has no open string in front of it, and the text in front
of it cannot fail to be read for that reason.
-/
namespace RuleGraph.Template
open Lexer

def closing : List Char :=
  ['\x7d', '\x7d']

/-- A text with an end for each of its strings. What stands behind it is outside of strings. -/
inductive StringsClosed : List Char → Prop
  | nil : StringsClosed []
  | plain {c : Char} {cs : List Char} (hc : (c == '\'' || c == '"') = false)
    (h : StringsClosed cs) : StringsClosed (c :: cs)
  | string {quote : Char} {body rest value : List Char} (hquote : quote == '\'' || quote == '"')
    (hbody : stringBody quote body = .closed value body.length) (h : StringsClosed rest) :
    StringsClosed (quote :: (body ++ rest))

variable {c quote : Char} {cs rest front back value : List Char} {p n k : Nat} {t : Lexeme}
  {ts : List Token}

theorem stringsClosed_cons_iff (hc : (c == '\'' || c == '"') = false) :
    StringsClosed (c :: cs) ↔ StringsClosed cs := by
  refine ⟨fun h => ?_, .plain hc⟩
  cases h with
  | plain _ h => exact h
  | string hquote _ _ =>
    rw [hc] at hquote
    cases hquote

theorem exists_of_stringBody (h : stringBody quote cs = .closed value n) :
    ∃ body rest, cs = body ++ rest ∧ body.length = n ∧
      stringBody quote body = .closed value body.length := by
  have hn : stringBody quote (cs ++ []) = .closed value n ∧ n ≤ cs.length := stringBody_append.2 h
  have hlength := List.length_take_of_le hn.2
  refine ⟨cs.take n, cs.drop n, (List.take_append_drop n cs).symm, hlength, ?_⟩
  rw [hlength]
  rw [← List.take_append_drop n cs] at h
  exact stringBody_append.1 ⟨h, Nat.le_of_eq hlength.symm⟩

theorem stringsClosed_quote_iff (hquote : quote == '\'' || quote == '"')
    (h : stringBody quote cs = .closed value n) :
    StringsClosed (quote :: cs) ↔ StringsClosed (cs.drop n) := by
  constructor
  · intro hcs
    generalize hall : quote :: cs = all at hcs
    cases hcs with
    | nil => cases hall
    | plain hc _ =>
      cases hall
      rw [hquote] at hc
      cases hc
    | string _ hbody hrest =>
      cases hall
      cases h.symm.trans (stringBody_append.2 hbody).1
      rwa [List.drop_left]
  · intro hrest
    obtain ⟨body, rest, rfl, rfl, hbody⟩ := exists_of_stringBody h
    rw [List.drop_left] at hrest
    exact .string hquote hbody hrest

theorem exists_closed_of_stringsClosed (hquote : quote == '\'' || quote == '"')
    (h : StringsClosed (quote :: cs)) : ∃ value n, stringBody quote cs = .closed value n := by
  cases h with
  | plain hc _ =>
    rw [hquote] at hc
    cases hc
  | string _ hbody _ => exact ⟨_, _, (stringBody_append.2 hbody).1⟩

theorem stringsClosed_append_iff (h : ∀ c ∈ cs, IsInner c) :
    StringsClosed (cs ++ rest) ↔ StringsClosed rest := by
  induction cs with
  | nil => exact Iff.rfl
  | cons c cs ih =>
    rw [List.forall_mem_cons] at h
    rw [List.cons_append, stringsClosed_cons_iff h.1.ne_quote, ih h.2]

theorem bodyLength_open (h : ∀ value n, stringBody quote cs ≠ .closed value n) :
    bodyLength (some quote) cs = none := by
  induction cs using stringBody.induct quote with
  | case1 | case2 => rfl
  | case3 c cs ih =>
    rw [bodyLength, ih]
    · rfl
    · intro value n hbody
      exact h _ _ (StringBody.push_eq_closed.2 ⟨value, n, hbody, rfl, rfl⟩)
  | case4 c cs hend hmore hquote =>
    have hc : c ≠ '\\' := fun h => by cases cs <;> simp_all
    rw [stringBody_cons hc, if_pos hquote] at h
    exact absurd rfl (h [] 1)
  | case5 c cs hend hmore hquote ih =>
    have hc : c ≠ '\\' := fun h => by cases cs <;> simp_all
    rw [stringBody_cons hc, if_neg hquote] at h
    rw [bodyLength_quoted hc, if_neg hquote, ih]
    · rfl
    · intro value n hbody
      exact h _ _ (StringBody.push_eq_closed.2 ⟨value, n, hbody, rfl, rfl⟩)

theorem bodyLength_closing (back : List Char) : bodyLength none (closing ++ back) = some 0 := rfl

theorem eq_closing_or (c : Char) (cs : List Char) :
    (∃ back, c :: cs = closing ++ back) ∨ c ≠ '\x7d' ∨ cs.head? ≠ some '\x7d' := by
  by_cases hc : c = '\x7d'
  · by_cases hcs : cs.head? = some '\x7d'
    · obtain ⟨back, rfl⟩ := List.head?_eq_some_iff.1 hcs
      exact .inl ⟨back, by rw [hc]; rfl⟩
    · exact .inr (.inr hcs)
  · exact .inr (.inl hc)

/-- The search passes a text whose strings are closed, unless it finds an end in it. -/
theorem bodyLength_of_stringsClosed (h : StringsClosed front) (rest : List Char) :
    (∃ k < front.length, bodyLength none (front ++ rest) = some k) ∨
      bodyLength none (front ++ rest) = (bodyLength none rest).map (· + front.length) := by
  induction h with
  | nil => exact .inr (by simp)
  | @plain c cs hc h ih =>
    rw [List.cons_append]
    rcases eq_closing_or c (cs ++ rest) with ⟨back, hback⟩ | hend
    · exact .inl ⟨0, Nat.succ_pos _, by rw [hback, bodyLength_closing]⟩
    · rw [bodyLength_cons hend hc]
      rcases ih with ⟨k, hk, hlength⟩ | hlength
      · exact .inl ⟨k + 1, Nat.succ_lt_succ hk, by rw [hlength]; rfl⟩
      · exact .inr (by rw [hlength]; exact map_add_map_add _ rfl)
  | @string quote body rest' value hquote hbody h ih =>
    have hpassed : bodyLength none (quote :: (body ++ (rest' ++ rest))) =
        (bodyLength none (rest' ++ rest)).map (· + (body.length + 1)) := by
      rw [bodyLength_quote hquote, bodyLength_string (stringBody_append.2 hbody).1, List.drop_left]
      exact map_add_map_add _ rfl
    have hsum : rest'.length + (body.length + 1) = (quote :: (body ++ rest')).length := by
      rw [List.length_cons, List.length_append]
      omega
    rw [List.cons_append, List.append_assoc, hpassed]
    rcases ih with ⟨k, hk, hlength⟩ | hlength
    · exact .inl ⟨k + (body.length + 1), by omega, by rw [hlength]; rfl⟩
    · exact .inr (by rw [hlength]; exact map_add_map_add _ hsum)

theorem exists_of_bodyLength (h : bodyLength none cs = some k) :
    ∃ front back, cs = front ++ closing ++ back ∧ StringsClosed front ∧ front.length = k := by
  induction hlength : cs.length using Nat.strongRecOn generalizing cs k with
  | ind length ih =>
    subst hlength
    cases cs with
    | nil => cases h
    | cons c cs =>
      cases hquote : c == '\'' || c == '"' with
      | true =>
        rw [bodyLength_quote hquote] at h
        by_cases hclosed : ∃ value n, stringBody c cs = .closed value n
        · obtain ⟨value, n, hstring⟩ := hclosed
          rw [bodyLength_string hstring, map_add_map_add _ rfl] at h
          obtain ⟨k, hk, rfl⟩ := Option.map_eq_some_iff.1 h
          obtain ⟨body, rest, rfl, rfl, hbody⟩ := exists_of_stringBody hstring
          rw [List.drop_left] at hk
          have hshorter : rest.length < (c :: (body ++ rest)).length := by
            rw [List.length_cons, List.length_append]
            omega
          obtain ⟨front, back, rfl, hfront, rfl⟩ := ih rest.length hshorter hk rfl
          refine ⟨c :: (body ++ front), back, by simp, .string hquote hbody hfront, ?_⟩
          rw [List.length_cons, List.length_append]
          omega
        · rw [bodyLength_open fun value n hbody => hclosed ⟨value, n, hbody⟩] at h
          cases h
      | false =>
        rcases eq_closing_or c cs with ⟨back, hback⟩ | hend
        · rw [hback, bodyLength_closing] at h
          cases h
          exact ⟨[], back, hback, .nil, rfl⟩
        · rw [bodyLength_cons hend hquote] at h
          obtain ⟨k, hk, rfl⟩ := Option.map_eq_some_iff.1 h
          obtain ⟨front, back, rfl, hfront, rfl⟩ := ih cs.length (Nat.lt_succ_self _) hk rfl
          exact ⟨c :: front, back, rfl, .plain hquote hfront, rfl⟩

theorem stringsClosed_token_iff (h : Begins c cs t n) :
    StringsClosed (c :: cs) ↔ StringsClosed (cs.drop n) := by
  rcases characters_of_begins h with ⟨value, hquote, hbody⟩ | ⟨-, rfl, rfl⟩ | hinner
  · exact stringsClosed_quote_iff hquote hbody
  · exact stringsClosed_cons_iff rfl
  · have hsplit : StringsClosed (c :: cs.take n ++ cs.drop n) ↔ StringsClosed (cs.drop n) :=
      stringsClosed_append_iff hinner
    rwa [List.cons_append, List.take_append_drop] at hsplit

/-- A text that is read has its strings closed. -/
theorem stringsClosed_of_lexed (h : Lexed p cs ts) : StringsClosed cs := by
  induction h with
  | nil => exact .nil
  | blank hc h ih => exact .plain (isInner_of_isBlank hc).ne_quote ih
  | token hc ht h ih =>
    rw [stringsClosed_token_iff ht, List.drop_left]
    exact ih

end RuleGraph.Template

namespace RuleGraph

/-- Whether a text ends inside of a string. -/
def Fault.isOpen : Fault → Bool
  | .openString | .openEscape => true
  | _ => false

namespace Lexer
open Template
variable {c : Char} {cs : List Char} {p : Nat} {fault : Fault}

theorem isOpen_of_number (h : number cs = .error fault) : fault.isOpen = false := by
  unfold number at h
  dsimp only at h
  split at h
  · split at h <;> cases h
    rfl
  · cases h
    rfl

theorem isOpen_of_symbol {next : Option Char} (h : symbol c next = .error fault) :
    fault.isOpen = false := by
  revert h
  fun_cases symbol c next <;> rintro ⟨⟩ <;> rfl

/-- What stands in front of the end of a span is not left open. -/
theorem isOpen_of_lexeme {position : Nat} (h : StringsClosed (c :: cs))
    (herror : lexeme p c cs = .error (.malformed position fault)) : fault.isOpen = false := by
  unfold lexeme at herror
  split at herror
  · dsimp only at herror
    split at herror
    · cases herror
    · next hfault =>
      cases herror
      exact isOpen_of_number hfault
  · split at herror
    · next hquote =>
      obtain ⟨value, n, hbody⟩ := exists_closed_of_stringsClosed hquote h
      rw [hbody] at herror
      cases herror
    · split at herror
      · cases herror
      · split at herror
        · cases herror
        · next hfault =>
          cases herror
          exact isOpen_of_symbol hfault

theorem isOpen_of_tokensFrom {position : Nat} (h : StringsClosed cs)
    (herror : tokensFrom p cs = .error (.malformed position fault)) : fault.isOpen = false := by
  induction p, cs using tokensFrom.induct with
  | case1 p =>
    rw [tokensFrom] at herror
    cases herror
  | case2 p c cs hc ih =>
    rw [tokensFrom, if_pos hc] at herror
    exact ih ((stringsClosed_cons_iff (isInner_of_isBlank hc).ne_quote).1 h) herror
  | case3 p c cs hc e he =>
    rw [tokensFrom, if_neg hc, he] at herror
    cases herror
    exact isOpen_of_lexeme h he
  | case4 p c cs hc t n ht e he ih =>
    rw [tokensFrom, if_neg hc, ht] at herror
    simp only [he] at herror
    cases herror
    exact ih ((stringsClosed_token_iff (lexeme_eq_ok_iff.1 ht)).1 h) he
  | case5 p c cs hc t n ht rest hrest ih =>
    rw [tokensFrom, if_neg hc, ht] at herror
    simp only [hrest] at herror
    cases herror

end Lexer
end RuleGraph

import RuleGraph.Proofs.Expr.Evaluation
import RuleGraph.Proofs.Text.Pieces
/-!
# Splitting and joining

The function `split` gives the pieces of a text, and `join` with the same separator makes the text
of them again.
-/
namespace RuleGraph

namespace Builtin

theorem apply_split (s sep : String) :
    split.apply [.string s, .string sep] = .ok (.strings (Text.split s sep)) := rfl

theorem apply_join_strings (ss : List String) (sep : String) :
    join.apply [.strings ss, .string sep] = .ok (.string (sep.intercalate ss)) := by
  have htexts : (ss.map Value.string).map Value.text = ss := by
    rw [List.map_map]
    exact List.map_id ss
  have hjoin : join.apply [.strings ss, .string sep] =
      .ok (.string (sep.intercalate ((ss.map Value.string).map Value.text))) := rfl
  rw [hjoin, htexts]

end Builtin

namespace Expr
variable {f : Builtin} {left right : Expr} {scope : Scope} {v w : Value}

theorem eval_call_of_operands (hf : f.isClosure = false) (hcount : f.accepts 2)
    (hleft : left.eval scope = .ok v) (hright : right.eval scope = .ok w) :
    (call f [left, right]).eval scope = f.apply [v, w] := by
  have hlength : f.accepts [left, right].length := hcount
  rw [eval_call_of_accepts hf hlength]
  simp [evalAll, hleft, hright]

variable {text separator : Expr} {s sep : String}

/-- A text is split into one piece at least, none of which has the separator in it unless that is
empty, and the pieces joined with the separator are the text. -/
theorem join_split (htext : text.eval scope = .ok (.string s))
    (hseparator : separator.eval scope = .ok (.string sep)) :
    (∃ pieces, pieces ≠ [] ∧
      (call .split [text, separator]).eval scope = .ok (.strings pieces) ∧
      (sep ≠ "" → ∀ p ∈ pieces, ¬sep.toList <:+: p.toList)) ∧
    (call .join [call .split [text, separator], separator]).eval scope = .ok (.string s) := by
  have hsplit : (call .split [text, separator]).eval scope =
      .ok (.strings (Text.split s sep)) := by
    rw [eval_call_of_operands rfl rfl htext hseparator, Builtin.apply_split]
  refine ⟨⟨_, Text.split_ne_nil, hsplit, fun hsep p hp => ?_⟩, ?_⟩
  · exact Text.not_infix_of_mem_split hsep hp
  · rw [eval_call_of_operands rfl rfl hsplit hseparator, Builtin.apply_join_strings,
      Text.intercalate_split]

/-- The separator overlaps itself in the text, and stands at both of its ends. -/
theorem join_split_overlapping :
    (string "aaabaa").eval (.ofRoot .empty) = .ok (.string "aaabaa") ∧
      (string "aa").eval (.ofRoot .empty) = .ok (.string "aa") ∧
      Text.split "aaabaa" "aa" = ["", "ab", ""] ∧
      (call .join [call .split [string "aaabaa", string "aa"], string "aa"]).eval (.ofRoot .empty) =
        .ok (.string "aaabaa") :=
  ⟨rfl, rfl, by decide, (join_split rfl rfl).2⟩

end Expr
end RuleGraph

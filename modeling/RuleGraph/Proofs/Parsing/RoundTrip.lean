import RuleGraph.Proofs.Number.Bits
import RuleGraph.Proofs.Parsing.Brackets
import RuleGraph.Proofs.Parsing.Constructs
/-!
# What is written is read again

Every expression that can be written is taken for itself by the level that it is written on. The
parser of whole texts therefore gives it back if it is within the two limits, and names one of them
otherwise.
-/
namespace RuleGraph
open RuleGraph.Parser Level

theorem takes_members {ts : List Lexeme} {path : List String} {m n : Nat}
    (h : Level.access.Takes ts (.field path) m n) (names : List String) :
    Level.access.Takes (ts ++ names.flatMap fun name => [.dot, .identifier name])
      (.field (path ++ names)) m n := by
  induction names generalizing ts path with
  | nil => simpa using h
  | cons name names ih => simpa using ih (takes_member h name)

theorem intercalate_dot (first : String) (rest : List String) :
    [Lexeme.dot].intercalate ((first :: rest).map fun name => [.identifier name]) =
      [.identifier first] ++ rest.flatMap fun name => [.dot, .identifier name] := by
  induction rest generalizing first with
  | nil => rfl
  | cons next rest ih =>
    rw [List.flatMap_cons]
    simpa [List.intercalate, List.intersperse] using ih next

namespace Expr

theorem takes_literal {v : Value} (h : v.isScalar) :
    (literal v).level.Takes (literal v).lexemes (literal v) (literal v).nesting 0 := by
  cases v with
  | null => exact takes_atom rfl
  | bool b => cases b <;> exact takes_atom rfl
  | string s => exact takes_atom rfl
  | array items => cases h
  | object members => cases h
  | number x =>
    by_cases hsign : Number.signBit x
    · have hopposite : Level.sign.Takes [.number (-x)] (number (-x)) 0 0 :=
        (takes_atom rfl).of_rank_le (by decide)
      simpa [level, lexemes, nesting, Value.level, Value.lexemes, hsign, negated, number,
        Number.neg_neg] using takes_minus hopposite
    · have hatom : Level.atom.Takes [.number x] (literal (.number x)) 0 0 := takes_atom rfl
      simpa [level, lexemes, nesting, Value.level, Value.lexemes, hsign] using hatom

theorem takes_field {path : List String} (h : path ≠ []) :
    Level.access.Takes (field path).lexemes (field path) 0 0 := by
  cases path with
  | nil => contradiction
  | cons first rest =>
    rw [lexemes, intercalate_dot]
    exact takes_members ((takes_identifier first).of_rank_le (by decide)) rest

theorem negated_eq {operand : Expr} (h : ¬operand.isNumber) :
    negated operand = .unary .negate operand := by
  unfold negated
  split
  · exact absurd rfl h
  · rfl

theorem takes_operation {left right : Expr} {op : Operator}
    (hleft : op.leftLevel.Takes (left.lexemesAt op.leftLevel) left (left.nestingAt op.leftLevel)
      left.operatorCount)
    (hright : op.rightLevel.Takes (right.lexemesAt op.rightLevel) right
      (right.nestingAt op.rightLevel) right.operatorCount) :
    op.level.Takes (binary left op right).lexemes (binary left op right)
      (binary left op right).nesting (binary left op right).operatorCount := by
  by_cases hop : op = .pow
  · subst hop
    have hpower := takes_power hleft hright
    rwa [← List.singleton_append, ← List.append_assoc] at hpower
  · have hspelling : op.lexemes ∈ op.spellings := by
      cases op <;> exact List.mem_cons_self
    rw [lexemes, List.append_assoc]
    cases op <;> first | contradiction | exact takes_binary hop hspelling hleft hright

theorem takes_items {items : List Expr}
    (h : TakenAll (allLexemes items) items (allNesting items) (allOperatorCount items)) :
    Level.atom.Takes (array items).lexemes (array items) (array items).nesting
      (array items).operatorCount := by
  cases items with
  | nil => exact takes_emptyArray
  | cons e es =>
    have harray := takes_array h (List.cons_ne_nil _ _) (.inl rfl)
    rwa [List.append_nil] at harray

theorem takes_entries {entries : List (String × Expr)}
    (h : TakenEntries (entriesLexemes entries) entries (entriesNesting entries)
      (entriesOperatorCount entries)) :
    Level.atom.Takes (object entries).lexemes (object entries) (object entries).nesting
      (object entries).operatorCount := by
  cases entries with
  | nil => exact takes_emptyObject
  | cons entry entries =>
    have hobject := takes_object h (List.cons_ne_nil _ _) (.inl rfl)
    rwa [List.append_nil] at hobject

theorem takes_arguments {f : Builtin} {args : List Expr} (hcount : f.accepts args.length)
    (h : TakenAll (allLexemes args) args (allNesting args) (allOperatorCount args)) :
    Level.atom.Takes (call f args).lexemes (call f args) (call f args).nesting
      (call f args).operatorCount := by
  cases args with
  | nil => exact takes_emptyCall (ofName?_name f) hcount
  | cons e es => exact takes_call (ofName?_name f) hcount h (List.cons_ne_nil _ _)

mutual

theorem takes_lexemes : (e : Expr) → e.IsWritable →
    e.level.Takes e.lexemes e e.nesting e.operatorCount
  | .literal _, h => takes_literal h.1
  | .field _, h => takes_field h
  | .subject, _ | .element, _ => takes_atom rfl
  | .index base key, h => by
    have hindex := takes_index (takes_lexemesAt (takes_lexemes base h.1) .access)
      ((takes_lexemes key h.2).of_rank_le (Nat.zero_le _))
    rwa [← List.append_assoc] at hindex
  | .binary left op right, h =>
    takes_operation (takes_lexemesAt (takes_lexemes left h.1) op.leftLevel)
      (takes_lexemesAt (takes_lexemes right h.2) op.rightLevel)
  | .unary .not operand, h =>
    takes_not (.inl rfl) (takes_lexemesAt (takes_lexemes operand h.2) .sign)
  | .unary .negate operand, h => by
    have hoperand := takes_minus (takes_lexemesAt (takes_lexemes operand h.2) .sign)
    rwa [negated_eq fun hnumber => h.1 ⟨rfl, hnumber⟩] at hoperand
  | .call _ args, h => takes_arguments h.1 (takenAll args h.2)
  | .ternary condition yes no, h => by
    have hternary := takes_ternary
      (takes_lexemesAt (takes_lexemes condition h.1) .coalescence)
      ((takes_lexemes yes h.2.1).of_rank_le (Nat.zero_le _))
      ((takes_lexemes no h.2.2).of_rank_le (Nat.zero_le _))
    rwa [← List.cons_append, ← List.append_assoc] at hternary
  | .array items, h => takes_items (takenAll items h)
  | .object entries, h => takes_entries (takenEntries entries h)
  | .interval start stop startIncluded stopIncluded, h =>
    takes_interval ((takes_lexemesAt (takes_lexemes start h.1) .sum).of_rank_le (by decide))
      (takes_lexemesAt (takes_lexemes stop h.2) .sum) startIncluded stopIncluded
termination_by structural e => e

theorem takenAll : (es : List Expr) → AllWritable es →
    TakenAll (allLexemes es) es (allNesting es) (allOperatorCount es)
  | [], _ => .nil
  | e :: rest, h => .cons ((takes_lexemes e h.1).of_rank_le (Nat.zero_le _)) (takenAll rest h.2)
termination_by structural es => es

theorem takenEntries : (entries : List (String × Expr)) → EntriesWritable entries →
    TakenEntries (entriesLexemes entries) entries (entriesNesting entries)
      (entriesOperatorCount entries)
  | [], _ => .nil
  | (_, e) :: rest, h =>
    .cons rfl ((takes_lexemes e h.1).of_rank_le (Nat.zero_le _)) (takenEntries rest h.2)
termination_by structural entries => entries

end

theorem reads_wholeExpression {ts : List Lexeme} {e : Expr} {need count : Nat} {c : Cursor}
    (h : Level.conditional.Takes ts e need count) (hc : c.At ts) :
    Reads wholeExpression c e [] maxNesting (need + 1) count := by
  have hc' : c.At (ts ++ []) := by rwa [List.append_nil]
  refine Meets.of_eq (left_bind _ _) rfl ?_
  refine (h.reads_expression hc' (endsAt_nil _) (by rw [hc.length]; omega)).bind_at fun c hc _ =>
    ⟨c, hc, rfl, ?_⟩
  change (expectEnd >>= fun _ => pure e : Parser Expr) c = _
  rw [expectEnd, bind_assoc, peek_bind, hc.head_eq]
  rfl

/-- Parsing the tokens that a writable expression is written with gives the expression back, if its
nesting and its operators are within the limits, and the error of one of the limits otherwise. -/
theorem wholeExpression_lexemes {e : Expr} (he : e.IsWritable) {tokens : List Token}
    (htokens : tokens.map Token.lexeme = e.lexemes ++ [.eof]) :
    if e.nesting + 1 ≤ maxNesting ∧ e.operatorCount ≤ maxOperators then
      ∃ c, wholeExpression ⟨tokens, 0⟩ = .ok (e, c)
    else ∃ limit : ParseError, limit.IsLimit ∧ wholeExpression ⟨tokens, 0⟩ = .error limit := by
  have hc : Cursor.At ⟨tokens, 0⟩ e.lexemes := ⟨htokens, Nat.zero_le _⟩
  have htaken : e.IsTaken := (takes_lexemes e he).of_rank_le (Nat.zero_le _)
  have hread := reads_wholeExpression htaken hc
  unfold Reads Meets at hread
  rw [Nat.zero_add] at hread
  split at hread
  · rename_i hroom
    obtain ⟨c, -, -, hread⟩ := hread
    rw [if_pos hroom]
    exact ⟨c, hread⟩
  · rename_i hroom
    obtain ⟨limit, hread, hlimit⟩ := hread
    rw [if_neg hroom]
    exact ⟨limit, hlimit, hread⟩

/-- The expression `-2 * (a - b)`. -/
def negativeMultiple : Expr :=
  .binary (.number (-2)) .mul (.binary (.field ["a"]) .sub (.field ["b"]))

def negativeMultipleTokens : List Token :=
  [⟨.minus, 0⟩, ⟨.number 2, 1⟩, ⟨.star, 3⟩, ⟨.openParen, 5⟩, ⟨.identifier "a", 6⟩, ⟨.minus, 8⟩,
    ⟨.identifier "b", 10⟩, ⟨.closeParen, 11⟩, ⟨.eof, 12⟩]

theorem negativeMultiple_isWritable : negativeMultiple.IsWritable := by
  have hfinite : (-2 : Float).isFinite = true := by decide +kernel
  simp [negativeMultiple, IsWritable, number, Value.isScalar, Value.isFinite, hfinite]

theorem negativeMultiple_lexemes :
    negativeMultipleTokens.map Token.lexeme = negativeMultiple.lexemes ++ [.eof] := by
  have hsign : Number.signBit (-2) = true := by decide +kernel
  have hleft : (number (-2)).lexemes = [.minus, .number 2] := by
    simp only [number, lexemes, Value.lexemes, hsign, if_true, Number.neg_neg]
  have hlevel : (number (-2)).level = .sign := by
    simp only [number, level, Value.level, hsign, if_true]
  rw [negativeMultiple, lexemes, hleft, hlevel]
  rfl

theorem negativeMultiple_parsed :
    ∃ c, wholeExpression ⟨negativeMultipleTokens, 0⟩ = .ok (negativeMultiple, c) := by
  have h := wholeExpression_lexemes negativeMultiple_isWritable negativeMultiple_lexemes
  rwa [if_pos (by decide +kernel)] at h

end Expr
end RuleGraph

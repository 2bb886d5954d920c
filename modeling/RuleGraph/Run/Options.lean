import RuleGraph.Form
/-!
# Options of an evaluation
-/
namespace RuleGraph

structure Options where
  trace : Bool
  /-- Decisions at this depth or deeper are not evaluated; zero counts as one. -/
  maxDepth : UInt8
  deriving DecidableEq, Repr

namespace Options

def standard : Options :=
  ⟨false, 1⟩

def limit (o : Options) : UInt8 :=
  if o.maxDepth = 0 then 1 else o.maxDepth

theorem limit_ne_zero (o : Options) : o.limit ≠ 0 := by
  unfold limit
  split
  · decide
  · assumption

open Form in
def decode {m : Type → Type} [Monad m] [MonadLiftT Option m] {α : Type} (form : Form m α) (a : α) :
    m Options := do
  let fields ← form.record (["trace", "maxDepth"].map .named) a
  let trace ← orDefault form.switch standard.trace fields "trace"
  let maxDepth ← orDefault form.byte standard.maxDepth.toNat fields "maxDepth"
  return ⟨trace, .ofNat maxDepth⟩

def toJson (o : Options) : Json :=
  .record [("trace", .bool o.trace), ("maxDepth", .integer o.maxDepth.toNat)]

end Options
end RuleGraph

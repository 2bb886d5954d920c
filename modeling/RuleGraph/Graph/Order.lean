/-!
# The order of a graph

Nodes are placed one after another: each time the first one all of whose sources are placed. What is
left when there is no such node lies on a cycle or behind one.
-/
namespace RuleGraph

/-- The neighbours of each node, in the order of the edges. -/
structure Adjacency where
  sources : List (List Nat)
  targets : List (List Nat)
  degrees : List Nat
  deriving DecidableEq, Repr

namespace Adjacency

def empty (n : Nat) : Adjacency :=
  ⟨.replicate n [], .replicate n [], .replicate n 0⟩

def join (a : Adjacency) (edge : Nat × Nat) : Adjacency where
  sources := a.sources.modify edge.2 (· ++ [edge.1])
  targets := a.targets.modify edge.1 (· ++ [edge.2])
  degrees := a.degrees.modify edge.2 (· + 1)

def ofEdges (n : Nat) (edges : List (Nat × Nat)) : Adjacency :=
  edges.foldl join (empty n)

end Adjacency

/-- How far the nodes of a graph are placed. -/
structure Countdown where
  degrees : List Nat
  ready : List Nat
  order : List Nat
  deriving DecidableEq, Repr

namespace Countdown

def start (degrees : List Nat) : Countdown where
  degrees
  ready := (List.range degrees.length).filter (degrees[·]? == some 0)
  order := []

/-- Counts down for an edge into a node, which the last one makes ready. -/
def release (c : Countdown) (target : Nat) : Countdown :=
  match c.degrees[target]? with
  | some (left + 1) =>
    { c with
      degrees := c.degrees.set target left
      ready := if left = 0 then target :: c.ready else c.ready }
  | _ => c

def take (c : Countdown) (i : Nat) : Countdown :=
  { c with ready := c.ready.erase i, order := c.order ++ [i] }

def place (targets : List (List Nat)) (c : Countdown) (i : Nat) : Countdown :=
  (targets.getD i []).foldl release (c.take i)

/-- What a run uses up: each node that is placed was ready, and it takes an edge to make one so. -/
def left (c : Countdown) : Nat :=
  c.ready.length + c.degrees.foldr (· + ·) 0

theorem sum_set {degrees : List Nat} {target left : Nat} (h : degrees[target]? = some (left + 1)) :
    (degrees.set target left).foldr (· + ·) 0 + 1 = degrees.foldr (· + ·) 0 := by
  induction degrees generalizing target with
  | nil => simp at h
  | cons degree rest ih =>
    cases target with
    | zero =>
      simp only [List.getElem?_cons_zero, Option.some.injEq] at h
      simp only [List.set_cons_zero, List.foldr_cons]
      omega
    | succ target =>
      have hrest := ih (by simpa using h)
      simp only [List.set_cons_succ, List.foldr_cons]
      omega

theorem left_release_le (c : Countdown) (target : Nat) : (c.release target).left ≤ c.left := by
  unfold release
  split
  · next left h =>
    have hsum := sum_set h
    simp only [Countdown.left]
    split
    · simp only [List.length_cons]
      omega
    · omega
  · exact Nat.le_refl _

theorem left_foldl_release_le (targets : List Nat) (c : Countdown) :
    (targets.foldl release c).left ≤ c.left := by
  induction targets generalizing c with
  | nil => exact Nat.le_refl _
  | cons target rest ih => exact Nat.le_trans (ih _) (c.left_release_le target)

theorem left_place_lt (targets : List (List Nat)) {c : Countdown} {i : Nat} (h : i ∈ c.ready) :
    (c.place targets i).left < c.left := by
  have hpos := List.length_pos_of_mem h
  have hle := left_foldl_release_le (targets.getD i []) (c.take i)
  have htake : (c.take i).left + 1 = c.left := by
    simp only [left, take, List.length_erase_of_mem h]
    omega
  unfold place
  omega

/-- Places the least node that is ready until there is none. -/
def run (targets : List (List Nat)) (c : Countdown) : Countdown :=
  match _h : c.ready.min? with
  | none => c
  | some i => run targets (c.place targets i)
termination_by c.left
decreasing_by exact left_place_lt targets (List.min?_mem _h)

end Countdown

structure Layout where
  order : List Nat
  sources : List (List Nat)
  deriving DecidableEq, Repr

/-- The layout of a graph with `n` nodes, or the nodes that no order can place. -/
def Layout.ofEdges (n : Nat) (edges : List (Nat × Nat)) : Except (List Nat) Layout :=
  let a := Adjacency.ofEdges n edges
  let c := (Countdown.start a.degrees).run a.targets
  if c.order.length < n then .error ((List.range n).filter (0 < c.degrees.getD · 0))
  else .ok ⟨c.order, a.sources⟩

end RuleGraph

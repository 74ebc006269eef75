/-!
# Schedules

A graph on the nodes `0 … n - 1` is the list of its arcs, each from a node to one that has to come
later. `Graph.order` puts the nodes into an order that follows the arcs, or names a node on a cycle.

The order is the reverse of the order in which a depth first walk leaves the nodes. The walk starts
at the nodes in ascending order and follows arcs in the order of the list. A node with an arc to
itself is on a cycle; of several, the one the walk enters first is named. Otherwise there is a cycle
exactly if some arc leads backwards in the order, and the source of such an arc is on one: of the
first node that such an arc leads to, the first in the list.
-/

namespace BuildGraph

/-- A directed graph on `n` nodes; arcs may be parallel. -/
structure Graph (n : Nat) where
  /-- The arcs, from the earlier node to the later one. -/
  arcs : List (Fin n × Fin n)
deriving DecidableEq

namespace Graph

variable {n : Nat}

/-- The targets of the arcs that leave `v`, in the order of the arcs. -/
def successors (g : Graph n) (v : Fin n) : List (Fin n) :=
  g.arcs.filterMap fun (source, target) => if source = v then some target else none

/-- The sources of the arcs that reach `v`, in the order of the arcs. -/
def predecessors (g : Graph n) (v : Fin n) : List (Fin n) :=
  g.arcs.filterMap fun (source, target) => if target = v then some source else none

/-! ## The walk -/

/-- How far a depth first walk has come. -/
structure Walk (n : Nat) where
  /-- The nodes entered, the latest first. -/
  entered : List (Fin n)
  /-- The nodes left, the latest first. -/
  left : List (Fin n)

/-- Visit a node and, through its arcs, every node not entered yet. The first argument bounds the
depth; a path through nodes not entered before is never longer than the graph has nodes. -/
def visit (g : Graph n) : Nat → Walk n → Fin n → Walk n
  | 0, walk, _ => walk
  | depth + 1, walk, v =>
    if walk.entered.contains v then walk
    else
      let after := (g.successors v).foldl (g.visit depth) { walk with entered := v :: walk.entered }
      { after with left := v :: after.left }

/-- The walk through the whole graph. -/
def walk (g : Graph n) : Walk n :=
  (List.finRange n).foldl (g.visit n) ⟨[], []⟩

/-! ## Cycles -/

/-- The first of the entered nodes with an arc to itself. -/
def selfArc? (g : Graph n) (entered : List (Fin n)) : Option (Fin n) :=
  entered.find? fun v => (g.successors v).contains v

/-- Go through an order; of the first node that an arc reaches from a node not gone through, the
first source of such an arc. -/
def backArc? (g : Graph n) (before : List (Fin n)) : List (Fin n) → Option (Fin n)
  | [] => none
  | v :: rest =>
    match (g.predecessors v).find? fun p => p ≠ v && !before.contains p with
    | some source => some source
    | none => g.backArc? (v :: before) rest

/-- The nodes in an order that follows the arcs, or a node on a cycle. -/
def order (g : Graph n) : Except (Fin n) (List (Fin n)) :=
  let walk := g.walk
  match g.selfArc? walk.entered.reverse with
  | some v => .error v
  | none =>
    match g.backArc? [] walk.left with
    | some v => .error v
    | none => .ok walk.left

end Graph

end BuildGraph

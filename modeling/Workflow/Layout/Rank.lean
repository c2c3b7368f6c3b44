import Workflow.Graph.Basic

/-!
# Ranks

The rank of a node is its distance from the entry of its level: a node without predecessors has
rank 0, any other is one past its furthest predecessor. Levels may have cycles. Nodes are ranked in
rounds; a round that ranks no node cuts a cycle at one node, which is ranked by those of its
predecessors that have a rank.
-/

namespace Workflow.Rank

/-- The place of the last node with an id. -/
def lastIndex (id : String) : List String → Option Nat
  | [] => none
  | x :: xs =>
    match lastIndex id xs with
    | some i => some (i + 1)
    | none => if x = id then some 0 else none

/-- The connections between different nodes, by the places of the nodes. Edges to nodes that are
not on the level do not count. -/
def arcs (ids : List String) (edges : List Edge) : List (Nat × Nat) :=
  edges.filterMap fun e =>
    match lastIndex e.source ids, lastIndex e.target ids with
    | some s, some t => if s = t then none else some (s, t)
    | _, _ => none

def predecessors (arcs : List (Nat × Nat)) (node : Nat) : List Nat :=
  ((arcs.filter (·.2 == node)).map (·.1)).eraseDups

abbrev Ranks := Array (Option Nat)

def Ranks.rank? (r : Ranks) (node : Nat) : Option Nat := (r[node]?).join

def Ranks.complete (r : Ranks) : Bool := r.all (·.isSome)

/-- One past the highest rank of the given nodes; those without a rank do not count. -/
def Ranks.next (r : Ranks) (preds : List Nat) : Nat :=
  (preds.filterMap r.rank?).foldl (fun m k => max m (k + 1)) 0

/-- Ranks a node if all its predecessors have a rank. -/
def Ranks.settle (preds : Array (List Nat)) (r : Ranks) (node : Nat) : Ranks :=
  let ps := preds.getD node []
  if (r.rank? node).isNone && ps.all fun p => (r.rank? p).isSome then
    r.setIfInBounds node (some (r.next ps))
  else r

/-- Goes through the nodes once; a rank counts for the nodes that follow in the same sweep. -/
def Ranks.sweep (preds : Array (List Nat)) (r : Ranks) : Ranks :=
  (List.range r.size).foldl (·.settle preds ·) r

/-- Where a cycle is cut: at the first unranked node that has a ranked predecessor. A cycle that
nothing leads into is entered at its first node. -/
def Ranks.cutNode? (preds : Array (List Nat)) (r : Ranks) : Option Nat :=
  let unranked := (List.range r.size).filter fun n => (r.rank? n).isNone
  match unranked.find? fun n => (preds.getD n []).any fun p => (r.rank? p).isSome with
  | some n => some n
  | none => unranked.head?

def Ranks.cut (preds : Array (List Nat)) (r : Ranks) : Ranks :=
  match r.cutNode? preds with
  | some n => r.setIfInBounds n (some (r.next (preds.getD n [])))
  | none => r

/-- One round: a sweep, or a cut if the sweep ranks no node. -/
def Ranks.round (preds : Array (List Nat)) (r : Ranks) : Ranks :=
  let swept := r.sweep preds
  if swept == r then r.cut preds else swept

/-- At most `n` rounds, until all nodes have a rank. -/
def Ranks.rounds (preds : Array (List Nat)) : Nat → Ranks → Ranks
  | 0, r => r
  | n + 1, r => if r.complete then r else (r.round preds).rounds preds n

/-- The rank of every node, in node order. As many rounds as there are nodes are enough; a node
left over would have its place as its rank. -/
def ofLevel (l : Level) : List Nat :=
  let n := l.nodes.length
  let arcs := arcs l.nodeIds l.edges
  let preds := ((List.range n).map (predecessors arcs)).toArray
  let r := Ranks.rounds preds n (Array.replicate n none)
  (List.range n).map fun i => (r.rank? i).getD i

end Workflow.Rank

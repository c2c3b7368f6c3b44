import Workflow.Graph.Basic

/-!
# The level after a merge

The dropped node goes, and its connections lead to the target instead. Of those that become loops
or repeat a connection, nothing is kept.
-/

namespace Workflow.Merge

/-- An edge with the dropped node replaced by the target. -/
def redirect (target dropped : String) (e : Edge) : Edge :=
  { e with
    source := if e.source = dropped then target else e.source
    target := if e.target = dropped then target else e.target }

def Connection := String × String
  deriving DecidableEq

def connection (e : Edge) : Connection := (e.source, e.target)

/-- The edges that stay when a node is dropped, and how many do not. -/
structure Redirected where
  edges : List Edge := []
  dropped : Nat := 0
  deriving DecidableEq, Repr

def Redirected.keep (e : Edge) (r : Redirected) : Redirected := { r with edges := e :: r.edges }

def Redirected.drop (r : Redirected) : Redirected := { r with dropped := r.dropped + 1 }

/-- Redirects the edges that touch the dropped node. `present` are the connections that are there
without them, to which each redirected one is added. -/
def redirectAll (target dropped : String) (present : List Connection) : List Edge → Redirected
  | [] => {}
  | e :: es =>
    if e.touches dropped then
      let e := redirect target dropped e
      if e.source = e.target ∨ connection e ∈ present then
        (redirectAll target dropped present es).drop
      else (redirectAll target dropped (connection e :: present) es).keep e
    else (redirectAll target dropped present es).keep e

def redirected (target dropped : String) (es : List Edge) : Redirected :=
  redirectAll target dropped ((es.filter (!·.touches dropped)).map connection) es

/-- A node of the target's id takes over the merged task and its sources, and is free for another
merge. -/
def takeOver (target : String) (task : Task) (sources : List Task) (n : Node) : Node :=
  if n.id = target then
    n.mapData fun d => { d with task, combined := some sources, combining := false }
  else n

def quotient (target dropped : String) (task : Task) (sources : List Task) (l : Level) : Level where
  nodes := (l.nodes.filter (·.id ≠ dropped)).map (takeOver target task sources)
  edges := (redirected target dropped l.edges).edges

end Workflow.Merge

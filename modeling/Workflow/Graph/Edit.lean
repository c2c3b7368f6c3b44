import Workflow.Graph.Basic
import Workflow.Graph.Error
import Workflow.Graph.Ids

/-!
# Editing a level

Every edit is a function from a level to what it leaves: the level afterwards, an answer, and the
departure of a node if there was one. Edits are the same on the root and on every subflow; only
the root looks at departures, to keep its phases up to date.
-/

namespace Workflow

/-- A node that left its level, and the one that took its place. -/
structure Departure where
  removed : String
  survivor : Option String := none
  deriving DecidableEq, Repr

structure Edited (α : Type) where
  level : Level
  departure : Option Departure := none
  result : α

/-- An edit that is refused leaves the level as it was. -/
def Edited.refused {ε α : Type} (l : Level) (e : ε) : Edited (Except ε α) :=
  { level := l, result := .error e }

namespace Level

/-- Adds a node for a task under a fresh id. -/
def addTask (task : Task) (position : Option Position) (tokens : TokenSupply) (l : Level) :
    Edited (String × TokenSupply) :=
  let (id, tokens) := tokens.freshNodeId task.category l.nodeIds
  { level := { l with nodes := l.nodes ++ [Node.ofTask id task position] }
    result := (id, tokens) }

/-- Connects two nodes and answers with the id of their edge. A connection that is there already
is kept as it is. -/
def connect (source target : String) (l : Level) : Edited (Except GraphError String) :=
  if !l.contains source then .refused l (.nodeNotFound source)
  else if !l.contains target then .refused l (.nodeNotFound target)
  else
    match l.edges.find? (·.joins source target) with
    | some e => { level := l, result := .ok e.id }
    | none =>
      let id := edgeId l.edgeIds source target
      { level := { l with edges := l.edges ++ [{ id, source, target }] }, result := .ok id }

def eraseFirst (id : String) (nodes : List Node) : List Node :=
  nodes.eraseP (·.id == id)

def remove (id : String) (l : Level) : Edited (Except GraphError Node) :=
  match l.node? id with
  | none => .refused l (.nodeNotFound id)
  | some n =>
    { level := { nodes := eraseFirst id l.nodes, edges := l.edges.filter (!·.touches id) }
      departure := some ⟨id, none⟩
      result := .ok n }

/-- Puts a node at the end of a level as it is, without any check. -/
def insertNode (n : Node) (l : Level) : Edited Unit :=
  { level := { l with nodes := l.nodes ++ [n] }, result := () }

/-- Puts an edge at the end of a level as it is, without any check. -/
def insertEdge (e : Edge) (l : Level) : Edited Unit :=
  { level := { l with edges := l.edges ++ [e] }, result := () }

end Level

/-- New values for the fields of a node; a field without one stays. -/
structure Node.Change where
  position : Option (Option Position) := none
  label : Option (Option String) := none
  task : Option Task := none
  enabled : Option Bool := none
  combined : Option (Option (List Task)) := none
  subflow : Option (Option Level) := none

/-- The node with its new values. Those for task data need a node that carries a task. -/
def Node.change (c : Node.Change) (n : Node) : Node :=
  { n with
    position := c.position.getD n.position
    label := c.label.getD n.label
    data := n.data.map fun d =>
      { d with
        task := c.task.getD d.task
        enabled := c.enabled.getD d.enabled
        combined := c.combined.getD d.combined
        subflow := c.subflow.getD d.subflow } }

/-- Changes the first node of an id, and tells whether there is one. -/
def Level.change (id : String) (c : Node.Change) (l : Level) : Edited Bool :=
  { level := l.mapNode id (·.change c), result := l.contains id }

/-- A phase after a departure: one that listed the node lists its survivor instead, if there is
one, and once. -/
def Phase.afterDeparture (d : Departure) (p : Phase) : Phase :=
  if p.nodeIds.contains d.removed then
    let rest := p.nodeIds.filter (· != d.removed)
    match d.survivor with
    | some s => { p with nodeIds := if rest.contains s then rest else rest ++ [s] }
    | none => { p with nodeIds := rest }
  else p

def Graph.edit {α : Type} (f : Level → Edited α) (g : Graph) : α × Graph :=
  let e := f g.toLevel
  let phases :=
    match e.departure with
    | some d => g.phases.map (·.afterDeparture d)
    | none => g.phases
  (e.result, { e.level with phases })

end Workflow

import Workflow.Build.Error
import Workflow.Graph.Ids
import Workflow.Layout.Place
import Workflow.Spec.Registry

/-!
# Building graphs from specs

A build makes a whole graph or stops at the first defect it meets: the nodes of a level in order,
each with its subflow, then the edges of the level. Task nodes get copies of catalog tasks.
-/

namespace Workflow

abbrev Lookup := String → Option Task

namespace NodeSpec

/-- The task of a node spec before its data is laid over it, as JSON: the catalog task, or a task
that is named by the node's label or id. -/
def baseTask (lookup : Lookup) (s : NodeSpec) : Except BuildError (Option Json) :=
  match s.taskId with
  | some taskId =>
    match lookup taskId with
    | some t => .ok (some (Task.codec.write t).canonical)
    | none => .error (.catalogLookup s.id taskId)
  | none =>
    if s.data.isSome then
      .ok (some (.obj [("id", .str s.id), ("name", .str (s.label.getD s.id))]))
    else .ok none

def mergedTask (lookup : Lookup) (s : NodeSpec) : Except BuildError (Option Task) := do
  match ← s.baseTask lookup with
  | none => return none
  | some base =>
    let merged :=
      match s.data with
      | some data => base.overlay data
      | none => base
    match Task.codec.read merged with
    | .ok t => return some t
    | .error e => .error (.invalidTaskData s.id e.message)

/-- The task that the node will carry. Boundaries carry none; task nodes and nodes with a subflow
have to. -/
def task (lookup : Lookup) (s : NodeSpec) : Except BuildError (Option Task) :=
  if s.kind.isBoundary then
    if s.taskId.isSome || s.data.isSome || s.subflow.isSome then
      .error (.unexpectedTaskData s.id)
    else .ok none
  else do
    match ← s.mergedTask lookup with
    | some t => return some t.normalized
    | none =>
      if s.kind = .task ∨ s.subflow.isSome then .error (.missingTaskData s.id) else return none

/-- The node of a spec with the task and the subflow that were built for it. -/
def toNode (s : NodeSpec) (task : Option Task) (subflow : Option Level) : Node where
  id := s.id
  kind := s.kind
  position := s.position
  label := s.label
  data := task.map fun task => { task, subflow, enabled := s.enabled.getD true }

end NodeSpec

namespace EdgeSpec

/-- Builds edges behind those that are there. An edge without an id gets one that is neither in
use nor given to another edge of the level. -/
def build (ids given : List String) (built : List Edge) :
    List EdgeSpec → Except BuildError (List Edge)
  | [] => .ok built
  | s :: rest => do
    let id := s.id.getD (edgeId (built.map (·.id) ++ given) s.source s.target)
    if s.source ∉ ids then .error (.danglingEdge id s.source)
    if s.target ∉ ids then .error (.danglingEdge id s.target)
    let e : Edge := ⟨id, s.source, s.target, s.label, s.animated⟩
    build ids given (built ++ [e]) rest

end EdgeSpec

namespace LevelSpec

mutual

def build (lookup : Lookup) : LevelSpec → Except BuildError Level
  | ⟨nodes, edges⟩ => do
    let built ← buildNodes lookup [] nodes
    let edges ← EdgeSpec.build (nodes.map (·.id)) (edges.filterMap (·.id)) [] edges
    return ⟨built, edges⟩

/-- Builds nodes behind others with the ids `seen`. -/
def buildNodes (lookup : Lookup) (seen : List String) : List NodeSpec → Except BuildError (List Node)
  | [] => .ok []
  | ⟨id, kind, position, taskId, label, enabled, data, subflow⟩ :: rest => do
    let s : NodeSpec := ⟨id, kind, position, taskId, label, enabled, data, subflow⟩
    if id ∈ seen then .error (.duplicateNodeId id)
    let task ← s.task lookup
    let subflow ← buildSubflow lookup subflow
    let rest ← buildNodes lookup (id :: seen) rest
    return s.toNode task subflow :: rest

def buildSubflow (lookup : Lookup) : Option LevelSpec → Except BuildError (Option Level)
  | none => .ok none
  | some sub => (build lookup sub).map some

end

end LevelSpec

namespace PhaseSpec

/-- The phase of a spec; ids that are no node's are left out. -/
def build (ids : List String) (s : PhaseSpec) : Phase :=
  ⟨s.id, s.name, s.color, s.nodeIds.filter (· ∈ ids)⟩

end PhaseSpec

namespace WorkflowSpec

/-- Builds the graph of a spec as it stands, without a layout. -/
def build (lookup : Lookup) (w : WorkflowSpec) : Except BuildError Graph := do
  let l ← w.toLevelSpec.build lookup
  return { l with phases := w.phases.map (·.build l.nodeIds) }

end WorkflowSpec

def Layout.applyGraph (c : Layout) (g : Graph) : Option (Graph × Nat) :=
  (c.apply g.toLevel).map fun (l, placed) => ({ g with toLevel := l }, placed)

/-- Builds the graph of a spec and lays it out, if there is a layout. None if the layout finds no
slot for some node. -/
def WorkflowSpec.buildWith (lookup : Lookup) (layout : Option Layout) (w : WorkflowSpec) :
    Except BuildError (Option Graph) := do
  let g ← w.build lookup
  match layout with
  | none => return some g
  | some c => return (c.applyGraph g).map (·.1)

/-- The spec of a panel. Without a registry no panel is known. -/
def panelSpec (registry : Option Registry) (panel : String) : Except BuildError WorkflowSpec :=
  (registry.getD {}).find panel

end Workflow

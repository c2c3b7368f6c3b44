import Workflow.Graph.Validity
import Workflow.Graph.Edit

/-!
# Editing subflows

A stored subflow is an interior without boundary nodes. For editing it is shown with exactly one
entry and one exit; keeping the view takes them off again.
-/

namespace Workflow

inductive SubflowError
  | boundaryNode (id : String)
  | notTaskBearing (id : String)
  | graph (cause : GraphError)
  deriving DecidableEq, Inhabited, Repr

def SubflowError.code : SubflowError → String
  | boundaryNode _ => "BoundaryNode"
  | notTaskBearing _ => "NotTaskBearing"
  | graph _ => "Graph"

def SubflowError.message : SubflowError → String
  | boundaryNode id => "Boundary node '" ++ id ++ "' cannot be deleted from a subflow"
  | notTaskBearing id => "Node '" ++ id ++ "' is not a task-bearing node and cannot own a subflow"
  | graph cause => cause.message

/-- A boundary that is added where a subflow has none. -/
structure Boundary where
  kind : NodeKind
  id : String
  label : String
  position : Position

namespace Boundary

def entry : Boundary := ⟨.input, "subflow-input", "Input", ⟨100, 200⟩⟩

def exit : Boundary := ⟨.output, "subflow-output", "Output", ⟨700, 200⟩⟩

def toNode (b : Boundary) (taken : List String) : Node :=
  { id := freeId taken b.id "-", kind := b.kind, position := some b.position, label := some b.label }

end Boundary

namespace Level

/-- The nodes without those of a kind that come after the first of it. -/
def keepFirst (kind : NodeKind) : List Node → List Node
  | [] => []
  | n :: ns => if n.kind = kind then n :: ns.filter (·.kind ≠ kind) else n :: keepFirst kind ns

/-- The nodes of a kind that come after the first of it. -/
def surplus (kind : NodeKind) (nodes : List Node) : List Node :=
  (nodes.filter (·.kind = kind)).drop 1

def touchesAny (ids : List String) (e : Edge) : Bool :=
  e.source ∈ ids || e.target ∈ ids

/-- The level with at most one boundary of each kind. Edges of the others go with them. -/
def dropSurplus (l : Level) : Level :=
  let dropped := (surplus .input l.nodes ++ surplus .output l.nodes).map (·.id)
  { nodes := keepFirst .output (keepFirst .input l.nodes)
    edges := l.edges.filter (!touchesAny dropped ·) }

def hasKind (kind : NodeKind) (l : Level) : Bool :=
  l.nodes.any (·.kind = kind)

def addEntry (l : Level) : Level :=
  if l.hasKind .input then l
  else { l with nodes := Boundary.entry.toNode l.nodeIds :: l.nodes }

def addExit (l : Level) : Level :=
  if l.hasKind .output then l
  else { l with nodes := l.nodes ++ [Boundary.exit.toNode l.nodeIds] }

/-- The editing view of a stored subflow, or of none: one entry and one exit around the interior. -/
def editingView (stored : Option Level) : Level :=
  (stored.getD {}).dropSurplus.addEntry.addExit

/-- The interior of a view, which is what is stored: no boundaries and none of their edges. -/
def interior (view : Level) : Level :=
  let boundaries := (view.nodes.filter (·.kind.isBoundary)).map (·.id)
  { nodes := view.nodes.filter (!·.kind.isBoundary)
    edges := view.edges.filter (!touchesAny boundaries ·) }

def removeInterior (id : String) (view : Level) : Edited (Except SubflowError Node) :=
  if (view.node? id).any (·.kind.isBoundary) then .refused view (.boundaryNode id)
  else
    let e := view.remove id
    { e with result := e.result.mapError .graph }

end Level

namespace Node

/-- The editing view of the subflow of a node that carries a task. -/
def openSubflow (n : Node) : Except SubflowError Level :=
  if n.carriesTask then .ok (Level.editingView n.subflow) else .error (.notTaskBearing n.id)

/-- Stores the interior of a view in a node. An empty interior is no subflow. -/
def attach (n : Node) (view : Level) : Except SubflowError Node :=
  let interior := view.interior
  match interior.validate with
  | .error e => .error (.graph e)
  | .ok () =>
    match n.data with
    | none => .error (.notTaskBearing n.id)
    | some d =>
      let subflow := if interior.nodes.isEmpty then none else some interior
      .ok { n with data := some { d with subflow } }

end Node

/-- Stores the interior of a view in the first node of an id; none if there is no such node. -/
def Level.attach (id : String) (view : Level) (l : Level) :
    Edited (Option (Except SubflowError Node)) :=
  match l.node? id with
  | none => { level := l, result := none }
  | some n =>
    match n.attach view with
    | .error e => { level := l, result := some (.error e) }
    | .ok n => { level := l.mapNode id fun _ => n, result := some (.ok n) }

end Workflow

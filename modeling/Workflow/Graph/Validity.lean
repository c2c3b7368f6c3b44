import Workflow.Graph.Basic
import Workflow.Graph.Error

/-!
# Checking a graph

A level is valid if its node ids are distinct, its task nodes carry a task, its edges join nodes of
the level, and all its subflows are valid. Defects of a level are reported before those of its
subflows, those of nodes before those of edges, and each kind in list order.
-/

namespace Workflow.Level

/-- Checks nodes behind others with the ids `seen`. -/
def checkNodes (seen : List String) : List Node → Except GraphError Unit
  | [] => .ok ()
  | n :: ns =>
    if n.id ∈ seen then .error (.duplicateNodeId n.id)
    else if n.kind = .task ∧ !n.carriesTask then .error (.missingTaskData n.id)
    else checkNodes (n.id :: seen) ns

def checkEdges (ids : List String) : List Edge → Except GraphError Unit
  | [] => .ok ()
  | e :: es =>
    if e.source ∉ ids then .error (.danglingEdge e.id e.source)
    else if e.target ∉ ids then .error (.danglingEdge e.id e.target)
    else checkEdges ids es

mutual

def validate : Level → Except GraphError Unit
  | ⟨nodes, edges⟩ => do
    checkNodes [] nodes
    checkEdges (nodes.map (·.id)) edges
    validateSubflows nodes

def validateSubflows : List Node → Except GraphError Unit
  | [] => .ok ()
  | ⟨id, _, _, _, some ⟨_, _, _, some sub, _⟩⟩ :: ns =>
    match sub.validate with
    | .error e => .error (.subflow id e)
    | .ok () => validateSubflows ns
  | _ :: ns => validateSubflows ns

end

end Workflow.Level

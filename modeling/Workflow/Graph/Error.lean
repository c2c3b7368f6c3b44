/-!
# What can be wrong with a graph
-/

namespace Workflow

/-- A defect of a level, or an edit that a level does not allow. -/
inductive GraphError
  | nodeNotFound (id : String)
  | duplicateNodeId (id : String)
  | danglingEdge (edge missing : String)
  | missingTaskData (id : String)
  /-- The defect is in the subflow of the node `parent`. -/
  | subflow (parent : String) (inner : GraphError)
  deriving DecidableEq, Inhabited, Repr

def GraphError.code : GraphError → String
  | nodeNotFound _ => "NodeNotFound"
  | duplicateNodeId _ => "DuplicateNodeId"
  | danglingEdge _ _ => "DanglingEdge"
  | missingTaskData _ => "MissingTaskData"
  | subflow _ _ => "Subflow"

def GraphError.message : GraphError → String
  | nodeNotFound id => "Node '" ++ id ++ "' not found at this level"
  | duplicateNodeId id => "Node id '" ++ id ++ "' appears more than once at this level"
  | danglingEdge edge missing =>
    "Edge '" ++ edge ++ "' references node '" ++ missing ++ "', which is not at this level"
  | missingTaskData id => "Node '" ++ id ++ "' is a task node but carries no task data"
  | subflow parent inner => "Inside the subflow of '" ++ parent ++ "': " ++ inner.message

/-- The step of a path that cannot be taken. -/
inductive PathError
  | nodeNotFound (depth : Nat) (id : String)
  | noSubflow (depth : Nat) (id : String)
  deriving DecidableEq, Inhabited, Repr

def PathError.code : PathError → String
  | nodeNotFound _ _ => "NodeNotFound"
  | noSubflow _ _ => "NoSubflow"

def PathError.message : PathError → String
  | nodeNotFound depth id =>
    "Path step " ++ toString depth ++ ": node '" ++ id ++ "' does not exist at that level"
  | noSubflow depth id =>
    "Path step " ++ toString depth ++ ": node '" ++ id ++ "' has no subflow to open"

end Workflow

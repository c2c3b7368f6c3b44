/-!
# Why a graph cannot be built
-/

namespace Workflow

/-- A defect of a spec, at the first place that has one. -/
inductive BuildError
  | configurationNotFound (requested : String) (known : List String)
  | catalogLookup (node task : String)
  | duplicateNodeId (id : String)
  | danglingEdge (edge missing : String)
  | missingTaskData (id : String)
  | invalidTaskData (id reason : String)
  | unexpectedTaskData (id : String)
  deriving DecidableEq, Inhabited, Repr

/-- The name of the cause. -/
def BuildError.code : BuildError → String
  | configurationNotFound _ _ => "ConfigurationNotFound"
  | catalogLookup _ _ => "CatalogLookup"
  | duplicateNodeId _ => "DuplicateNodeId"
  | danglingEdge _ _ => "DanglingEdge"
  | missingTaskData _ => "MissingTaskData"
  | invalidTaskData _ _ => "InvalidTaskData"
  | unexpectedTaskData _ => "UnexpectedTaskData"

def BuildError.message : BuildError → String
  | configurationNotFound requested known =>
    "Workflow configuration '" ++ requested ++ "' not found. Known configurations: [" ++
      ", ".intercalate known ++ "]"
  | catalogLookup node task =>
    "Node '" ++ node ++ "' references task '" ++ task ++ "', which is not in the task catalog"
  | duplicateNodeId id => "Node id '" ++ id ++ "' is declared more than once in the same graph"
  | danglingEdge edge missing =>
    "Edge '" ++ edge ++ "' references node '" ++ missing ++ "', which is not in the same graph"
  | missingTaskData id =>
    "Task node '" ++ id ++ "' has neither a catalog reference nor inline task data"
  | invalidTaskData id reason => "Node '" ++ id ++ "' has invalid task data: " ++ reason
  | unexpectedTaskData id => "Boundary node '" ++ id ++ "' cannot carry task data"

end Workflow

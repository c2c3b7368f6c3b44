import Workflow.Spec.Basic
import Workflow.Build.Error

/-!
# Spec registries

The known workflow specs by their panel ids, in the order of the ids.
-/

namespace Workflow

structure Registry where
  specs : List (String × WorkflowSpec) := []
  deriving Inhabited, Repr

namespace Registry

def insertSorted (id : String) (spec : WorkflowSpec) :
    List (String × WorkflowSpec) → List (String × WorkflowSpec)
  | [] => [(id, spec)]
  | (k, s) :: rest =>
    if id < k then (id, spec) :: (k, s) :: rest
    else if id = k then (id, spec) :: rest
    else (k, s) :: insertSorted id spec rest

/-- Registers a spec under an id, in place of the one that is there. -/
def insert (r : Registry) (id : String) (spec : WorkflowSpec) : Registry :=
  ⟨insertSorted id spec r.specs⟩

def ofList (entries : List (String × WorkflowSpec)) : Registry :=
  entries.foldl (fun r (id, spec) => r.insert id spec) {}

def ids (r : Registry) : List String := r.specs.map (·.1)

/-- The spec of a panel; an error that names all known panels if there is none. -/
def find (r : Registry) (id : String) : Except BuildError WorkflowSpec :=
  match r.specs.lookup id with
  | some spec => .ok spec
  | none => .error (.configurationNotFound id r.ids)

def ofText (text : String) : Except ReadError Registry :=
  ((Codec.entries WorkflowSpec.codec).readText text).map ofList

end Registry

end Workflow

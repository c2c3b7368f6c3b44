import Workflow.Files.Tree
import Workflow.Spec.Registry
import Workflow.Task.Catalog

/-!
# Loading catalogs and registries from files
-/

namespace Workflow

inductive LoadError
  | io (path : String) (cause : FileError)
  | json (cause : ReadError)
  deriving Inhabited

def LoadError.message : LoadError → String
  | io path cause => "Could not read '" ++ path ++ "': " ++ cause.message
  | json cause => "Failed to parse JSON: " ++ cause.message

/-- Reads what a file holds. -/
def loadFile {α : Type} (ofText : String → Except ReadError α) (fs : Files) (path : FilePath) :
    Except LoadError α :=
  match fs.read path with
  | .error e => .error (.io path.text e)
  | .ok text => (ofText text).mapError .json

def Catalog.ofFile (fs : Files) (path : FilePath) : Except LoadError Catalog :=
  loadFile Catalog.ofText fs path

def Registry.ofFile (fs : Files) (path : FilePath) : Except LoadError Registry :=
  loadFile Registry.ofText fs path

end Workflow

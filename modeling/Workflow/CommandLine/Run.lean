import Workflow.Build.Builder
import Workflow.CommandLine.Arguments
import Workflow.Load
import Workflow.Merge.Run
import Workflow.Outline
import Workflow.Task.Shelf

/-!
# The command line

One run loads a registry and a catalog, builds a panel, enters a path, maybe merges two nodes
there, and shows the level. A run works on a tree of files and ends with a report; the tree it
leaves holds what a store has written, also if the run fails after that.
-/

namespace Workflow.CommandLine

/-- What a run prints, and its exit code. -/
structure Report where
  code : Nat := 0
  stdout : String := ""
  stderr : String := ""
  deriving DecidableEq, Repr

def Report.failure (message : String) (stderr : String := "") : Report :=
  { code := 1, stderr := stderr ++ "\nError: " ++ message ++ "\n" }

/-- The store that the options name, or an empty one in memory. -/
def openStore (fs : Files) (directory : List String) : Option String → Except StoreError Store
  | some path => (FileStore.open? fs ⟨directory, path⟩).map .file
  | none => .ok (.memory {})

def Options.layout (o : Options) : Option Layout :=
  if o.noLayout then none
  else
    match o.direction with
    | some direction => some { direction }
    | none => some {}

def Options.steps (o : Options) : List String :=
  (o.path.splitOn "/").filter (· != "")

/-- The registry, the catalog and the store of a run. -/
def load (fs : Files) (directory : List String) (o : Options) :
    Except String (Registry × Catalog × Store) := do
  let registry ← (Registry.ofFile fs ⟨directory, o.registry⟩).mapError fun e =>
    "Failed to load registry '" ++ o.registry ++ "': " ++ e.message
  let catalog ← (Catalog.ofFile fs ⟨directory, o.catalog⟩).mapError fun e =>
    "Failed to load catalog '" ++ o.catalog ++ "': " ++ e.message
  let store ← (openStore fs directory o.store).mapError fun e =>
    "Failed to open task store '" ++ o.store.getD "" ++ "': " ++ e.message
  return (registry, catalog, store)

def build (fs : Files) (registry : Registry) (catalog : Catalog) (store : Store) (o : Options) :
    Except String Graph := do
  let layered : LayeredCatalog := ⟨catalog, store.list fs⟩
  let built := do
    let spec ← panelSpec (some registry) o.panel
    spec.buildWith layered.lookup o.layout
  match built with
  | .error e => .error ("Build failed: " ++ e.message)
  | .ok none => .error "Build failed: the layout has no free slot"
  | .ok (some g) => .ok g

def enter (g : Graph) (nav : Navigator) : List String → Except String Navigator
  | [] => .ok nav
  | id :: rest =>
    match nav.push g id with
    | .error e => .error ("Cannot open '" ++ id ++ "': " ++ e.message)
    | .ok nav => enter g nav rest

def invalidPath (e : PathError) : String := "Invalid path: " ++ e.message

/-- What a merge leaves: a note about it or an error, the graph, and the files. -/
def merge (tokens : TokenSupply) (store : Store) (fs : Files) (nav : Navigator) (g : Graph)
    (target dropped : String) : Except String String × Graph × Files :=
  let run := fun l => Merge.combine { append := Store.append } target dropped tokens (store, fs) l
  match g.editAt run nav.path with
  | .error e => (.error (invalidPath e), g, fs)
  | .ok ((ending, _, _, fs), g) =>
    match ending with
    | .error e => (.error ("Merge failed: " ++ e.message), g, fs)
    | .ok .cancelled => (.ok "", g, fs)
    | .ok (.done o) =>
      (.ok ("Merged '" ++ o.removed ++ "' into '" ++ o.node ++ "' as '" ++ o.task.name ++ "' (" ++
        toString o.droppedEdges ++ " edges dropped)\n"), g, fs)

/-- The level at the cursor with the trail to it, in a format. -/
def view (format : Format) (trail : List Crumb) (l : Level) : String :=
  match format with
  | .outline => Crumb.text trail ++ "\n" ++ l.outline
  | .json =>
    let shown := Json.obj [
      ("breadcrumbs", (Codec.list Crumb.codec).write trail),
      ("nodes", (Codec.list Node.codec).write l.nodes),
      ("edges", (Codec.list Edge.codec).write l.edges)]
    shown.canonical.pretty 0 ++ "\n"

/-- The report of a run up to the end, after it has printed `stderr`. -/
def finish (o : Options) (nav : Navigator) (g : Graph) (stderr : String) : Report :=
  match nav.trail g, nav.level g with
  | .ok trail, .ok l => { stdout := view o.format trail l, stderr }
  | .error e, _ | .ok _, .error e => .failure (invalidPath e) stderr

/-- One run with given options, below a directory of a tree of files. -/
def runWith (tokens : TokenSupply) (fs : Files) (directory : List String) (o : Options) :
    Report × Files :=
  let entered := do
    let (registry, catalog, store) ← load fs directory o
    let g ← build fs registry catalog store o
    let nav ← enter g {} o.steps
    return (store, g, nav)
  match entered with
  | .error message => (.failure message, fs)
  | .ok (store, g, nav) =>
    match o.merge with
    | none => (finish o nav g "", fs)
    | some (target, dropped) =>
      match merge tokens store fs nav g target dropped with
      | (.error message, _, fs) => (.failure message, fs)
      | (.ok note, g, fs) => (finish o nav g note, fs)

def run (tokens : TokenSupply) (fs : Files) (directory : List String) (arguments : List String) :
    Report × Files :=
  match parse arguments with
  | .ok o => runWith tokens fs directory o
  | .error e => ({ code := 2, stderr := "error: " ++ e.message ++ "\n" }, fs)

end Workflow.CommandLine

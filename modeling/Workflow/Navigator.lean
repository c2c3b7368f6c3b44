import Workflow.Graph.Path

/-!
# Navigating a graph

A navigator is a cursor at a level, given by its path. Moves that fail leave it where it was.
-/

namespace Workflow

namespace Path

/-- One level down, without asking whether there is one. -/
def push (path : Path) (id : String) : Path := path ++ [id]

/-- One level up; the root stays. -/
def pop (path : Path) : Path := path.dropLast

/-- Up to a depth; a depth that is not above stays. -/
def jump (path : Path) (depth : Nat) : Path := path.take depth

end Path

/-- One entry of a trail from the root to a level. -/
structure Crumb where
  id : String
  name : String
  deriving DecidableEq, Inhabited, Repr

namespace Crumb

def record : Record Crumb where
  typeName := "Breadcrumb"
  blank := ⟨"", ""⟩
  fields := [
    .required "id" .string id fun c v => { c with id := v },
    .required "name" .string name fun c v => { c with name := v }]

def codec : Codec Crumb := record.codec

end Crumb

/-- The entries below a level along a path. -/
def Level.crumbs (depth : Nat) (l : Level) : Path → Except PathError (List Crumb)
  | [] => .ok []
  | id :: path =>
    match l.node? id with
    | none => .error (.nodeNotFound depth id)
    | some n =>
      match n.subflow with
      | none => .error (.noSubflow depth id)
      | some sub => do
        let trail ← sub.crumbs (depth + 1) path
        return ⟨n.id, n.displayName⟩ :: trail

/-- The id of the entry for the root. -/
def rootCrumbId : String := "root"

def Graph.trail (g : Graph) (rootLabel : String) (path : Path) : Except PathError (List Crumb) := do
  let crumbs ← g.toLevel.crumbs 0 path
  return ⟨rootCrumbId, rootLabel⟩ :: crumbs

structure Navigator where
  path : Path := []
  rootLabel : String := "Workflow"
  deriving DecidableEq, Inhabited, Repr

namespace Navigator

def level (nav : Navigator) (g : Graph) : Except PathError Level :=
  g.levelAt nav.path

def trail (nav : Navigator) (g : Graph) : Except PathError (List Crumb) :=
  g.trail nav.rootLabel nav.path

/-- Enters a node of the current level, whose subflow must have nodes. -/
def push (nav : Navigator) (g : Graph) (id : String) : Except PathError Navigator := do
  let depth := nav.path.length
  let l ← nav.level g
  match l.node? id with
  | none => .error (.nodeNotFound depth id)
  | some n =>
    if n.isDrillable then .ok { nav with path := nav.path.push id }
    else .error (.noSubflow depth id)

/-- Goes up one level and tells the id that was left. -/
def pop (nav : Navigator) : Option String × Navigator :=
  (nav.path.getLast?, { nav with path := nav.path.pop })

def jump (nav : Navigator) (depth : Nat) : Navigator :=
  { nav with path := nav.path.jump depth }

def reset (nav : Navigator) : Navigator :=
  { nav with path := [] }

end Navigator

end Workflow

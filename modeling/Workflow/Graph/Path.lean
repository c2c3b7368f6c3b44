import Workflow.Graph.Edit

/-!
# Levels by their paths

A path lists the ids of the nodes whose subflows lead from the root to a level. Where an id
repeats, the first node with it is meant.
-/

namespace Workflow

/-- Ids of nodes from the root downwards; the empty path is the root. -/
abbrev Path := List String

namespace Level

/-- The subflow behind step number `depth` of a path. -/
def enter (l : Level) (depth : Nat) (id : String) : Except PathError Level :=
  match l.node? id with
  | none => .error (.nodeNotFound depth id)
  | some n =>
    match n.subflow with
    | none => .error (.noSubflow depth id)
    | some sub => .ok sub

/-- The level at the end of a path whose first step has number `depth`. -/
def resolve (depth : Nat) (l : Level) : Path → Except PathError Level
  | [] => .ok l
  | id :: path => do
    let sub ← l.enter depth id
    sub.resolve (depth + 1) path

/-- Edits the level at the end of a path that is known to lead to one: whatever is wrong with a
step, there is no subflow behind it. -/
def editAt {α : Type} (f : Level → Edited α) (depth : Nat) (l : Level) :
    Path → Except PathError (α × Level)
  | [] =>
    let e := f l
    .ok (e.result, e.level)
  | id :: path =>
    match (l.node? id).bind (·.subflow) with
    | none => .error (.noSubflow depth id)
    | some sub => do
      let (a, sub) ← sub.editAt f (depth + 1) path
      return (a, l.mapNode id (·.mapData fun d => { d with subflow := some sub }))

end Level

namespace Graph

def levelAt (g : Graph) (path : Path) : Except PathError Level :=
  g.toLevel.resolve 0 path

/-- Edits the level at a path, after the path has been resolved. Only an edit of the root changes
the phases. -/
def editAt {α : Type} (f : Level → Edited α) (path : Path) (g : Graph) :
    Except PathError (α × Graph) := do
  let _ ← g.levelAt path
  match path with
  | [] => return g.edit f
  | path => do
    let (a, root) ← g.toLevel.editAt f 0 path
    return (a, { g with toLevel := root })

end Graph

end Workflow

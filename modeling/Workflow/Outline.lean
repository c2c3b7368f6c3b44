import Workflow.Navigator

/-!
# Outlines

A level as indented text: a line for each node with the outline of its subflow below it, then a
line for each edge.
-/

namespace Workflow

/-- Whole coordinates are shown without, all others with one decimal place. -/
def coordinateText (x : Float) : String :=
  Decimal.fixedText (if Decimal.isWhole x then 0 else 1) x

def Position.text (p : Position) : String :=
  "(" ++ coordinateText p.x ++ ", " ++ coordinateText p.y ++ ")"

def NodeKind.tag : NodeKind → String
  | input => "in"
  | output => "out"
  | task => "task"
  | decision => "decision"

/-- What an outline says about the data of a node. -/
def TaskData.remarks (d : TaskData) : String :=
  (if d.enabled then "" else " disabled") ++
    match d.combined with
    | some (t :: ts) => " combines " ++ toString (t :: ts).length
    | _ => ""

/-- The line of a node without its indent. -/
def Node.outlineLine (n : Node) : String :=
  "- [" ++ n.kind.tag ++ "] " ++ n.displayName ++ " (" ++ n.id ++ ")" ++
    (match n.position with
      | some p => " @ " ++ p.text
      | none => "") ++
    (match n.data with
      | some d => d.remarks
      | none => "")

/-- The line of an edge without the indent of its level. -/
def Edge.outlineLine (e : Edge) : String :=
  "  " ++ e.source ++ " -> " ++ e.target ++
    match e.label with
    | some label => " [" ++ label ++ "]"
    | none => ""

/-- Two spaces for each level around. -/
def indent (depth : Nat) : String :=
  String.ofList (List.replicate (2 * depth) ' ')

namespace Level

mutual

/-- The lines of a level inside `depth` others. -/
def outlineLines (depth : Nat) : Level → List String
  | ⟨nodes, edges⟩ =>
    outlineNodes depth nodes ++ edges.map fun e => indent depth ++ e.outlineLine

def outlineNodes (depth : Nat) : List Node → List String
  | [] => []
  | ⟨id, kind, position, label, some ⟨task, enabled, combined, some sub, combining⟩⟩ :: ns =>
    (indent depth ++
        Node.outlineLine
          ⟨id, kind, position, label, some ⟨task, enabled, combined, some sub, combining⟩⟩) ::
      (sub.outlineLines (depth + 1) ++ outlineNodes depth ns)
  | n :: ns => (indent depth ++ n.outlineLine) :: outlineNodes depth ns

end

def outline (l : Level) : String :=
  String.join ((l.outlineLines 0).map (· ++ "\n"))

end Level

def Crumb.text (trail : List Crumb) : String :=
  " > ".intercalate (trail.map (·.name))

end Workflow

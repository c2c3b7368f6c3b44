import Workflow.Graph.Basic

/-!
# Graphs in JSON

Options without a value are left out, and so is the flag of an edge that is not animated. The flag
of a pending merge belongs to the editor and is neither written nor read.

Levels are nested in one another, so their shape is given for each depth of nesting; a value of
any depth is written and read with the shape that is deep enough for it.
-/

namespace Workflow

/-- The shape that is deep enough for the value at hand. -/
def Codec.deep {α : Type} (shape : Nat → Codec α) (height : α → Nat) : Codec α where
  write a := (shape (height a)).write a
  read j := (shape (j.height + 1)).read j

namespace Position

def record : Record Position where
  typeName := "Position"
  blank := ⟨0, 0⟩
  fields := [
    .required "x" .float x fun p v => { p with x := v },
    .required "y" .float y fun p v => { p with y := v }]

def codec : Codec Position := record.codec

end Position

namespace NodeKind

def nameOf : NodeKind → String
  | input => "inputBoundary"
  | output => "outputBoundary"
  | task => "task"
  | decision => "decision"

def codec : Codec NodeKind := .name [input, output, task, decision] nameOf

end NodeKind

namespace Edge

def record : Record Edge where
  typeName := "GraphEdge"
  blank := { id := "", source := "", target := "" }
  fields := [
    .required "id" .string id fun e v => { e with id := v },
    .required "source" .string source fun e v => { e with source := v },
    .required "target" .string target fun e v => { e with target := v },
    .omitted "label" .string label fun e v => { e with label := v },
    .flag "animated" animated fun e v => { e with animated := v }]

def codec : Codec Edge := record.codec

end Edge

namespace Phase

def record : Record Phase where
  typeName := "PhaseGroup"
  blank := { id := "", name := "" }
  fields := [
    .required "id" .string id fun p v => { p with id := v },
    .required "name" .string name fun p v => { p with name := v },
    .defaulted "color" .string color fun p v => { p with color := v },
    .defaulted "nodeIds" (.list .string) nodeIds fun p v => { p with nodeIds := v }]

def codec : Codec Phase := record.codec

end Phase

/-- The shape of task data whose subflow has a given shape. -/
def TaskData.record (subflows : Codec Level) : Record TaskData where
  typeName := "TaskNodeData"
  blank := { task := { id := "", name := "" } }
  fields := [
    .required "task" Task.codec task fun d v => { d with task := v },
    .defaulted "enabled" .bool enabled fun d v => { d with enabled := v },
    .omitted "combinedTasks" (.list Task.codec) combined fun d v => { d with combined := v },
    .omitted "subflow" subflows subflow fun d v => { d with subflow := v }]

def Node.record (subflows : Codec Level) : Record Node where
  typeName := "GraphNode"
  blank := { id := "", kind := .task }
  fields := [
    .required "id" .string id fun n v => { n with id := v },
    .required "type" NodeKind.codec kind fun n v => { n with kind := v },
    .omitted "position" Position.codec position fun n v => { n with position := v },
    .omitted "label" .string label fun n v => { n with label := v },
    .omitted "data" (TaskData.record subflows).codec data fun n v => { n with data := v }]

def Level.record (subflows : Codec Level) : Record Level where
  typeName := "Subflow"
  blank := {}
  fields := [
    .defaulted "nodes" (.list (Node.record subflows).codec) nodes fun l v => { l with nodes := v },
    .defaulted "edges" (.list Edge.codec) edges fun l v => { l with edges := v }]

def Graph.record (subflows : Codec Level) : Record Graph where
  typeName := "WorkflowGraph"
  blank := {}
  fields := [
    .defaulted "nodes" (.list (Node.record subflows).codec) (·.nodes)
      fun g v => { g with nodes := v },
    .defaulted "edges" (.list Edge.codec) (·.edges) fun g v => { g with edges := v },
    .defaulted "phases" (.list Phase.codec) phases fun g v => { g with phases := v }]

namespace Level

/-- The shape of levels that are nested at most `depth` deep. -/
def nested : (depth : Nat) → Codec Level
  | 0 => ⟨fun _ => .null, fun _ => .error .malformed⟩
  | depth + 1 => (record (nested depth)).codec

def codec : Codec Level := .deep nested height

end Level

/-- The depth of the levels inside a node. -/
def Node.height (n : Node) : Nat := Level.heightNodes [n]

def TaskData.codec : Codec TaskData :=
  .deep (fun depth => (record (Level.nested depth)).codec) fun d =>
    (d.subflow.map Level.height).getD 0

def Node.codec : Codec Node :=
  .deep (fun depth => (record (Level.nested depth)).codec) Node.height

def Graph.codec : Codec Graph :=
  .deep (fun depth => (record (Level.nested depth)).codec) fun g => g.toLevel.height

end Workflow

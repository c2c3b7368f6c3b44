import Workflow.Graph.Shape

/-!
# Workflow specs

The description a graph is built from. A node refers to a task of a catalog, or brings its own
data, or both: then the data is laid over the task.
-/

namespace Workflow

structure EdgeSpec where
  id : Option String := none
  source : String
  target : String
  label : Option String := none
  animated : Bool := false
  deriving DecidableEq, Inhabited, Repr

structure PhaseSpec where
  id : String
  name : String
  color : String := ""
  nodeIds : List String := []
  deriving DecidableEq, Inhabited, Repr

mutual

structure NodeSpec where
  id : String
  kind : NodeKind
  position : Option Position := none
  taskId : Option String := none
  label : Option String := none
  enabled : Option Bool := none
  /-- Data of any shape. -/
  data : Option Json := none
  subflow : Option LevelSpec := none

structure LevelSpec where
  nodes : List NodeSpec := []
  edges : List EdgeSpec := []

end

deriving instance Repr for NodeSpec, LevelSpec

instance : Inhabited LevelSpec := ⟨{}⟩
instance : Inhabited NodeSpec := ⟨{ id := "", kind := .task }⟩

structure WorkflowSpec extends LevelSpec where
  phases : List PhaseSpec := []
  deriving Inhabited, Repr

namespace LevelSpec

mutual

/-- How many levels are nested in one another. -/
def height : LevelSpec → Nat
  | ⟨nodes, _⟩ => heightNodes nodes + 1

def heightNodes : List NodeSpec → Nat
  | [] => 0
  | ⟨_, _, _, _, _, _, _, some sub⟩ :: ns => max sub.height (heightNodes ns)
  | _ :: ns => heightNodes ns

end

end LevelSpec

namespace EdgeSpec

def record : Record EdgeSpec where
  typeName := "EdgeSpec"
  blank := { source := "", target := "" }
  fields := [
    .nullable "id" .string id fun e v => { e with id := v },
    .required "source" .string source fun e v => { e with source := v },
    .required "target" .string target fun e v => { e with target := v },
    .nullable "label" .string label fun e v => { e with label := v },
    .defaulted "animated" .bool animated fun e v => { e with animated := v }]

def codec : Codec EdgeSpec := record.codec

end EdgeSpec

namespace PhaseSpec

def record : Record PhaseSpec where
  typeName := "PhaseSpec"
  blank := { id := "", name := "" }
  fields := [
    .required "id" .string id fun p v => { p with id := v },
    .required "name" .string name fun p v => { p with name := v },
    .defaulted "color" .string color fun p v => { p with color := v },
    (Field.defaulted "nodeIds" (.list .string) nodeIds fun p v => { p with nodeIds := v }).orNamed
      "nodes"]

def codec : Codec PhaseSpec := record.codec

end PhaseSpec

/-- The shape of a node spec whose subflow has a given shape. -/
def NodeSpec.record (subflows : Codec LevelSpec) : Record NodeSpec where
  typeName := "NodeSpec"
  blank := { id := "", kind := .task }
  fields := [
    .required "id" .string id fun n v => { n with id := v },
    .required "type" NodeKind.codec kind fun n v => { n with kind := v },
    .nullable "position" Position.codec position fun n v => { n with position := v },
    (Field.nullable "taskId" .string taskId fun n v => { n with taskId := v }).orNamed "task",
    .nullable "label" .string label fun n v => { n with label := v },
    .nullable "enabled" .bool enabled fun n v => { n with enabled := v },
    .nullable "data" .json data fun n v => { n with data := v },
    .nullable "subflow" subflows subflow fun n v => { n with subflow := v }]

def LevelSpec.record (subflows : Codec LevelSpec) : Record LevelSpec where
  typeName := "SubflowSpec"
  blank := {}
  fields := [
    .defaulted "nodes" (.list (NodeSpec.record subflows).codec) nodes
      fun l v => { l with nodes := v },
    .defaulted "edges" (.list EdgeSpec.codec) edges fun l v => { l with edges := v }]

def WorkflowSpec.record (subflows : Codec LevelSpec) : Record WorkflowSpec where
  typeName := "WorkflowSpec"
  blank := {}
  fields := [
    .defaulted "nodes" (.list (NodeSpec.record subflows).codec) (·.nodes)
      fun w v => { w with nodes := v },
    .defaulted "edges" (.list EdgeSpec.codec) (·.edges) fun w v => { w with edges := v },
    .defaulted "phases" (.list PhaseSpec.codec) phases fun w v => { w with phases := v }]

namespace LevelSpec

/-- The shape of level specs that are nested at most `depth` deep. -/
def nested : (depth : Nat) → Codec LevelSpec
  | 0 => ⟨fun _ => .null, fun _ => .error .malformed⟩
  | depth + 1 => (record (nested depth)).codec

def codec : Codec LevelSpec := .deep nested height

end LevelSpec

def NodeSpec.codec : Codec NodeSpec :=
  .deep (fun depth => (record (LevelSpec.nested depth)).codec) fun n => LevelSpec.heightNodes [n]

def WorkflowSpec.codec : Codec WorkflowSpec :=
  .deep (fun depth => (record (LevelSpec.nested depth)).codec) fun w => w.toLevelSpec.height

end Workflow

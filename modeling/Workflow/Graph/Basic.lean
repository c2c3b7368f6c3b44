import Workflow.Task.Definition

/-!
# Graphs of nested levels

A level is a set of nodes and the connections between them. A node that carries a task may own a
level of its own, its subflow, to any depth. The root of a graph is a level too; it alone groups
nodes into phases.
-/

namespace Workflow

structure Position where
  x : Float
  y : Float
  deriving BEq, Inhabited, Repr

/-- The role of a node on its level. A decision may lead back to earlier nodes. -/
inductive NodeKind
  | input
  | output
  | task
  | decision
  deriving DecidableEq, Inhabited, Repr

def NodeKind.isBoundary : NodeKind → Bool
  | input | output => true
  | task | decision => false

/-- A directed connection of two nodes of one level, by their ids. -/
structure Edge where
  id : String
  source : String
  target : String
  label : Option String := none
  animated : Bool := false
  deriving DecidableEq, Inhabited, Repr

mutual

/-- What a node that carries a task holds. -/
structure TaskData where
  task : Task
  enabled : Bool := true
  /-- The tasks that were merged into `task`, in merge order. -/
  combined : Option (List Task) := none
  subflow : Option Level := none
  /-- Set while a merge onto the node waits for its name. -/
  combining : Bool := false

structure Node where
  id : String
  kind : NodeKind
  position : Option Position := none
  label : Option String := none
  data : Option TaskData := none

/-- One level of the hierarchy: the root or a subflow. -/
structure Level where
  nodes : List Node := []
  edges : List Edge := []

end

deriving instance Repr for TaskData, Node, Level

instance : Inhabited Level := ⟨{}⟩
instance : Inhabited Node := ⟨{ id := "", kind := .task }⟩
instance : Inhabited TaskData := ⟨{ task := default }⟩

/-- A named and coloured group of root nodes, for display only. Phases may overlap. -/
structure Phase where
  id : String
  name : String
  color : String := ""
  nodeIds : List String := []
  deriving DecidableEq, Inhabited, Repr

structure Graph extends Level where
  phases : List Phase := []
  deriving Inhabited, Repr

def Edge.touches (e : Edge) (id : String) : Bool :=
  e.source == id || e.target == id

def Edge.joins (e : Edge) (source target : String) : Bool :=
  e.source == source && e.target == target

namespace TaskData

/-- The tasks the node stands for: the merged ones, or its only task. -/
def sourceTasks (d : TaskData) : List Task :=
  match d.combined with
  | some (t :: ts) => t :: ts
  | _ => [d.task]

end TaskData

namespace Node

def ofTask (id : String) (task : Task) (position : Option Position) : Node :=
  { id, kind := .task, position, data := some { task := task.normalized } }

def carriesTask (n : Node) : Bool := n.data.isSome

def subflow (n : Node) : Option Level := n.data.bind (·.subflow)

/-- A node can be entered if its subflow has nodes. -/
def isDrillable (n : Node) : Bool :=
  n.subflow.any fun l => !l.nodes.isEmpty

def isCombining (n : Node) : Bool := n.data.any (·.combining)

def displayName (n : Node) : String :=
  match (n.data.map (·.task.name)).filter (!·.isEmpty) with
  | some name => name
  | none => n.label.getD n.id

def mapData (f : TaskData → TaskData) (n : Node) : Node :=
  { n with data := n.data.map f }

end Node

namespace Level

def node? (l : Level) (id : String) : Option Node :=
  l.nodes.find? (·.id == id)

def contains (l : Level) (id : String) : Bool :=
  (l.node? id).isSome

/-- The nodes with the first one of an id replaced by its image under `f`. -/
def mapFirst (id : String) (f : Node → Node) : List Node → List Node
  | [] => []
  | n :: ns => if n.id == id then f n :: ns else n :: mapFirst id f ns

/-- `l` with the first node of an id replaced by its image under `f`. -/
def mapNode (id : String) (f : Node → Node) (l : Level) : Level :=
  { l with nodes := mapFirst id f l.nodes }

def nodeIds (l : Level) : List String := l.nodes.map (·.id)

def edgeIds (l : Level) : List String := l.edges.map (·.id)

mutual

/-- How many levels are nested in one another. -/
def height : Level → Nat
  | ⟨nodes, _⟩ => heightNodes nodes + 1

def heightNodes : List Node → Nat
  | [] => 0
  | ⟨_, _, _, _, some ⟨_, _, _, some sub, _⟩⟩ :: ns => max sub.height (heightNodes ns)
  | _ :: ns => heightNodes ns

end

end Level

namespace Graph

def phasesOf (g : Graph) (id : String) : List Phase :=
  g.phases.filter (·.nodeIds.contains id)

end Graph

end Workflow

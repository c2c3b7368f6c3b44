import Workflow.Json.Codec
import Workflow.Text.Blank

/-!
# Tasks

A task is a unit of agent work with its configuration. Tasks are values: a graph holds copies, and
a merge makes a new task instead of changing an old one.
-/

namespace Workflow

structure Task.Config where
  model : Option String := none
  temperature : Option Float := none
  tools : List String := []
  systemPrompt : Option String := none
  agents : List String := []
  rags : List String := []
  deriving BEq, Inhabited, Repr

structure Task where
  id : String
  name : String
  description : String := ""
  icon : String := ""
  category : String := ""
  config : Task.Config := {}
  deriving BEq, Inhabited, Repr

/-- The strings of several lists in the order in which they are first seen, each once. -/
def orderedUnion (lists : List (List String)) : List String :=
  lists.flatten.eraseDups

/-- The strings of one list, each once, where it is first seen. A list that repeats nothing is left
as it is. -/
def distinct (values : List String) : List String :=
  if values.Nodup then values else values.eraseDups

namespace Task.Config

def normalized (c : Config) : Config :=
  { c with tools := distinct c.tools, agents := distinct c.agents, rags := distinct c.rags }

/-- The model without the white space around it, if anything is left. -/
def effectiveModel (c : Config) : Option String :=
  (c.model.map Text.trim).filter fun m => !m.isEmpty

/-- The system prompt as it is, unless it is blank. -/
def effectivePrompt (c : Config) : Option String :=
  c.systemPrompt.filter fun p => !Text.allBlank p

def record : Record Config where
  typeName := "TaskConfig"
  blank := {}
  fields := [
    .omitted "model" .string model fun c v => { c with model := v },
    .omitted "temperature" .float temperature fun c v => { c with temperature := v },
    .defaulted "tools" (.list .string) tools fun c v => { c with tools := v },
    .omitted "systemPrompt" .string systemPrompt fun c v => { c with systemPrompt := v },
    .defaulted "agents" (.list .string) agents fun c v => { c with agents := v },
    .defaulted "rags" (.list .string) rags fun c v => { c with rags := v }]

end Task.Config

namespace Task

def normalized (t : Task) : Task :=
  { t with config := t.config.normalized }

/-- What a task is called where its name would not show. -/
def shownName (t : Task) : String :=
  if Text.allBlank t.name then t.id else t.name

def record : Record Task where
  typeName := "TaskDefinition"
  blank := { id := "", name := "" }
  fields := [
    .required "id" .string id fun t v => { t with id := v },
    .required "name" .string name fun t v => { t with name := v },
    .defaulted "description" .string description fun t v => { t with description := v },
    .defaulted "icon" .string icon fun t v => { t with icon := v },
    .defaulted "category" .string category fun t v => { t with category := v },
    .defaulted "config" Config.record.codec config fun t v => { t with config := v }]

def codec : Codec Task := record.codec

end Task

end Workflow

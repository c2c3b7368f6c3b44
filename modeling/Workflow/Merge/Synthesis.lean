import Workflow.Graph.Basic

/-!
# The configuration of a merged task

It is computed from the tasks that the two nodes stand for, so tasks that were merged before are
taken apart again and none is lost.
-/

namespace Workflow.Merge

/-- The sources of a merge, the target's first. -/
def sources (target dropped : TaskData) : List Task :=
  target.sourceTasks ++ dropped.sourceTasks

/-- The mean of the temperatures that are numbers. The sum starts from a negative zero, which is
neutral for all floats. -/
def meanTemperature (ts : List Task) : Option Float :=
  let known := (ts.filterMap (·.config.temperature)).filter (·.isFinite)
  if known.isEmpty then none
  else some (known.foldl (· + ·) (-0.0) / Float.ofNat known.length)

def joinedPrompt (ts : List Task) : Option String :=
  let prompts := ts.filterMap (·.config.effectivePrompt)
  if prompts.isEmpty then none else some ("\n".intercalate prompts)

/-- The merged configuration: the first model of the target's task, the dropped one and the
sources; the mean temperature, the joined prompts and the unions of the sources. -/
def config (target dropped : Task) (ts : List Task) : Task.Config where
  model :=
    target.config.effectiveModel.or <| dropped.config.effectiveModel.or <|
      ts.findSome? (·.config.effectiveModel)
  temperature := meanTemperature ts
  tools := orderedUnion (ts.map (·.config.tools))
  systemPrompt := joinedPrompt ts
  agents := orderedUnion (ts.map (·.config.agents))
  rags := orderedUnion (ts.map (·.config.rags))

end Workflow.Merge

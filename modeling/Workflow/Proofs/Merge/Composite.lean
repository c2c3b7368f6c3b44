import Workflow.Proofs.Merge.Steps
import Workflow.Proofs.Text.Trim

/-!
# Composite tasks

Without a namer, all of a merged task but its id comes from its sources, with one exception: the
model is looked for in the two tasks that are merged first. That makes no difference, since a
composite task has the model that is the first among its sources.
-/

namespace Workflow

variable {ts us : List Task} {x y : TaskData} {m : String}

namespace Task.Config

variable {c d : Config}

theorem effectiveModel_eq_some (h : c.effectiveModel = some m) :
    Text.trim m = m ∧ m.isEmpty = false := by
  obtain ⟨hm, hne⟩ := Option.filter_eq_some_iff.mp h
  obtain ⟨raw, -, rfl⟩ := Option.map_eq_some_iff.mp hm
  exact ⟨Text.trim_trim raw, by simpa using hne⟩

/-- A model that was found to be effective is effective as it is. -/
theorem effectiveModel_findSome (h : c.model = ts.findSome? (·.config.effectiveModel)) :
    c.effectiveModel = ts.findSome? (·.config.effectiveModel) := by
  cases hm : ts.findSome? (·.config.effectiveModel) with
  | none =>
    rw [hm] at h
    simp [effectiveModel, h]
  | some m =>
    obtain ⟨t, -, ht⟩ := List.exists_of_findSome?_eq_some hm
    obtain ⟨htrim, hne⟩ := effectiveModel_eq_some ht
    rw [hm] at h
    simp [effectiveModel, h, htrim, hne]

end Task.Config

namespace Merge

variable {c : Config} {id : String}

/-- The configuration that comes from merging the given tasks all at once. -/
def jointConfig (ts : List Task) : Task.Config where
  model := ts.findSome? (·.config.effectiveModel)
  temperature := meanTemperature ts
  tools := orderedUnion (ts.map (·.config.tools))
  systemPrompt := joinedPrompt ts
  agents := orderedUnion (ts.map (·.config.agents))
  rags := orderedUnion (ts.map (·.config.rags))

/-- The task that comes from merging the given ones all at once without a namer. -/
def composite (c : Config) (id : String) (ts : List Task) : Task where
  id := id
  name := fallbackName ts c.separator
  description := description ts
  icon := (ts.head?.map (·.icon)).getD ""
  category := c.category
  config := jointConfig ts

/-- The data stands for the given tasks, and its own task has the first model among them. -/
structure Represents (d : TaskData) (ts : List Task) : Prop where
  sources : d.sourceTasks = ts
  model : d.task.config.effectiveModel = ts.findSome? (·.config.effectiveModel)

theorem represents_plain (h : x.combined = none) : Represents x [x.task] where
  sources := by simp [TaskData.sourceTasks, h]
  model := by
    rw [List.findSome?_cons]
    cases x.task.config.effectiveModel <;> rfl

/-- What the target holds after a merge. -/
def merged (c : Config) (id : String) (ts : List Task) (d : TaskData) : TaskData :=
  { d with task := composite c id ts, combined := some ts, combining := false }

theorem represents_merged (h : ts ≠ []) : Represents (merged c id ts x) ts where
  sources := by
    cases ts with
    | nil => exact absurd rfl h
    | cons t ts => rfl
  model := Task.Config.effectiveModel_findSome rfl

theorem Represents.config (hx : Represents x ts) (hy : Represents y us) :
    config x.task y.task (ts ++ us) = jointConfig (ts ++ us) := by
  have hmodel : x.task.config.effectiveModel.or (y.task.config.effectiveModel.or
      ((ts ++ us).findSome? (·.config.effectiveModel))) =
        (ts ++ us).findSome? (·.config.effectiveModel) := by
    rw [hx.model, hy.model, List.findSome?_append]
    cases ts.findSome? (·.config.effectiveModel) with
    | none => cases us.findSome? (·.config.effectiveModel) <;> rfl
    | some m => rfl
  simp only [Merge.config, hmodel, jointConfig]

theorem resolve_noNamer {clock : Bool} {tokens : TokenSupply} {p : Pending} :
    (resolve c noNamer clock tokens p).1 =
      { p with task := task c p tokens.freshTaskId.1 (fallbackName p.sources c.separator) } := by
  unfold resolve
  cases clock <;> cases c.namingTimeout <;> rfl

end Merge

end Workflow

import Workflow.Proofs.Build.Mirror
import Workflow.Proofs.Json.Overlay
import Workflow.Proofs.Task.Written

/-!
# Data laid over catalog tasks

The data of a node spec changes the fields that it names. `Task.Overrides` says so field by field,
with the values that stand in the data. Keys that no task has are without effect: a spec is built as
it is built without them, `LevelSpec.pruned`.
-/

namespace Workflow

open Record (HasOneKeyEach)
open Workflow.Field (required_sets required_leaves defaulted_sets defaulted_leaves omitted_sets
  omitted_leaves)

variable {lookup : Lookup} {s s' : NodeSpec} {n : Node} {spec sub : LevelSpec} {l : Level}
variable {t u : Task} {bs os fs : List (String × Json)} {j data : Json} {laid : Bool}

-- ---------------------------------------------------------------------------
-- Configurations
-- ---------------------------------------------------------------------------

namespace Task.Config

variable {c d : Config}

/-- The fields of an object take the place of those of a configuration. Null stands for no value,
and a list replaces the whole list. -/
structure Overrides (o : List (String × Json)) (c d : Config) : Prop where
  model : Codec.string.optional.Overrides "model" o c.model d.model
  temperature : Codec.float.optional.Overrides "temperature" o c.temperature d.temperature
  tools : Codec.string.list.Overrides "tools" o c.tools d.tools
  systemPrompt : Codec.string.optional.Overrides "systemPrompt" o c.systemPrompt d.systemPrompt
  agents : Codec.string.list.Overrides "agents" o c.agents d.agents
  rags : Codec.string.list.Overrides "rags" o c.rags d.rags

theorem hasOneKeyEach : record.HasOneKeyEach := by
  simp [record, HasOneKeyEach, Field.omitted, Field.defaulted]

theorem overrides_of_read (h : record.codec.read (.obj fs) = .ok d) : Overrides fs {} d := by
  have field {β : Type} {key : String} {c : Codec β} {get : Config → β}
      (hown : record.Owns key c get) := Record.read_overrides hasOneKeyEach unambiguous h hown
  refine ⟨field ?_, field ?_, field ?_, field ?_, field ?_, field ?_⟩ <;> constructor <;>
    simp [record, omitted_sets, omitted_leaves, defaulted_sets, defaulted_leaves]

theorem Overrides.over (hos : (os.map (·.1)).Nodup) (hbelow : Overrides bs {} c)
    (h : Overrides (Json.overlayFields bs os) {} d) : Overrides os c d where
  model := hbelow.model.over (fun _ _ h => by cases h) hos h.model
  temperature := hbelow.temperature.over (fun _ _ h => by cases h) hos h.temperature
  tools := hbelow.tools.over (fun _ _ h => by cases h) hos h.tools
  systemPrompt := hbelow.systemPrompt.over (fun _ _ h => by cases h) hos h.systemPrompt
  agents := hbelow.agents.over (fun _ _ h => by cases h) hos h.agents
  rags := hbelow.rags.over (fun _ _ h => by cases h) hos h.rags

end Task.Config

-- ---------------------------------------------------------------------------
-- Tasks
-- ---------------------------------------------------------------------------

namespace Task

/-- The fields of an object take the place of those of a task. A configuration in the object is laid
over the task's field by field; one that is no object replaces it. -/
structure Overrides (o : List (String × Json)) (t u : Task) : Prop where
  id : Codec.string.Overrides "id" o t.id u.id
  name : Codec.string.Overrides "name" o t.name u.name
  description : Codec.string.Overrides "description" o t.description u.description
  icon : Codec.string.Overrides "icon" o t.icon u.icon
  category : Codec.string.Overrides "category" o t.category u.category
  configKept : Json.lookup "config" o = none → u.config = t.config
  configChanged : ∀ co, Json.lookup "config" o = some (.obj co) → t.config.Overrides co u.config
  configReplaced : ∀ j, Json.lookup "config" o = some j → (∀ co, j ≠ .obj co) →
    Config.record.codec.read j = .ok u.config

theorem hasOneKeyEach : record.HasOneKeyEach := by
  simp [record, HasOneKeyEach, Field.required, Field.defaulted]

/-- The fields of a task are those of an object, and empty where it has none. -/
structure ReadFrom (fs : List (String × Json)) (t : Task) : Prop where
  id : Codec.string.Overrides "id" fs "" t.id
  name : Codec.string.Overrides "name" fs "" t.name
  description : Codec.string.Overrides "description" fs "" t.description
  icon : Codec.string.Overrides "icon" fs "" t.icon
  category : Codec.string.Overrides "category" fs "" t.category
  config : Config.record.codec.Overrides "config" fs {} t.config

theorem readFrom (h : codec.read (.obj fs) = .ok t) : ReadFrom fs t := by
  have field {β : Type} {key : String} {c : Codec β} {get : Task → β}
      (hown : record.Owns key c get) := Record.read_overrides hasOneKeyEach unambiguous h hown
  refine ⟨field ?_, field ?_, field ?_, field ?_, field ?_, field ?_⟩ <;> constructor <;>
    simp [record, required_sets, required_leaves, defaulted_sets, defaulted_leaves]

/-- An object from which a task is read, and whose configuration is an object if there is one. -/
structure Under (bs : List (String × Json)) (t : Task) : Prop where
  reads : codec.read (.obj bs) = .ok t
  config : ∀ j, Json.lookup "config" bs = some j → ∃ cs, j = .obj cs

/-- What is read of a task with an object laid over it. -/
theorem Under.overrides (hbs : Under bs t) (hos : (Json.obj os).IsSorted)
    (h : codec.read (.obj (Json.overlayFields bs os)) = .ok u) : Overrides os t u := by
  have hd : (os.map (·.1)).Nodup := hos.1.imp fun h => h.ne
  have hbelow := readFrom hbs.reads
  have hall := readFrom h
  have hown := hbelow.config
  have hlaid := hall.config
  rw [Codec.Overrides, Json.lookup_overlayFields hd] at hlaid
  rw [Codec.Overrides] at hown
  refine ⟨hbelow.id.over (fun _ _ h => by cases h) hd hall.id,
    hbelow.name.over (fun _ _ h => by cases h) hd hall.name,
    hbelow.description.over (fun _ _ h => by cases h) hd hall.description,
    hbelow.icon.over (fun _ _ h => by cases h) hd hall.icon,
    hbelow.category.over (fun _ _ h => by cases h) hd hall.category, fun ho => ?_, fun co ho => ?_,
    fun j ho hj => ?_⟩
  all_goals
    rw [ho] at hlaid
    cases hb : Json.lookup "config" bs
  all_goals
    rw [hb] at hown hlaid
  · exact hlaid.trans hown.symm
  · exact Except.ok.inj (hlaid.symm.trans hown)
  · rw [hown]
    exact Config.overrides_of_read hlaid
  · obtain ⟨cs, rfl⟩ := hbs.config _ hb
    have hco : (Json.obj co).IsSorted := hos.of_lookup ho
    exact (Config.overrides_of_read hown).over (hco.1.imp fun h => h.ne)
      (Config.overrides_of_read hlaid)
  · exact hlaid
  · have hlaid : Config.record.codec.read (Json.overlay _ j) = .ok u.config := hlaid
    rwa [Json.overlay_replaces (.inr hj)] at hlaid

def configField : Field Task :=
  .defaulted "config" Config.record.codec config fun t v => { t with config := v }

theorem find_config : record.fields.find? (·.answersTo "config") = some configField := rfl

theorem config_written {j : Json} (h : ("config", j) ∈ record.written t) :
    j = Config.record.codec.write t.config := by
  obtain ⟨f, hf, hname, hw⟩ := Record.mem_written.mp h
  have hfound := unambiguous.find hf
  rw [hname, find_config] at hfound
  obtain rfl := Option.some.inj hfound
  exact (Option.some.inj hw).symm

theorem under_written (ht : t.Finite) : ∃ bs, (codec.write t).canonical = .obj bs ∧ Under bs t := by
  have hback := Task.rereads ht
  obtain ⟨fields, moved, hbs, hfields, hp⟩ := Json.reordered_canonical hback.isValue
  refine ⟨moved, hbs, hbs ▸ hback.sorted, fun j hj => ?_⟩
  obtain ⟨w, hw, hj⟩ := Json.mem_of_reordered hfields hp (Json.mem_of_lookup hj)
  rw [config_written hw] at hj
  obtain ⟨_, cs, rfl, -, -⟩ := hj
  exact ⟨cs, rfl⟩

theorem under_named (id name : String) :
    Under [("id", .str id), ("name", .str name)] { id, name } where
  reads := rfl
  config j h := by cases h

end Task

-- ---------------------------------------------------------------------------
-- Node specs
-- ---------------------------------------------------------------------------

namespace NodeSpec

/-- The task that the data of a node spec is laid over: that of the catalog or else, if there is
data, one that is named by the label or the id of the node. -/
def source (lookup : Lookup) (s : NodeSpec) : Option Task :=
  match s.taskId with
  | some taskId => lookup taskId
  | none => s.data.map fun _ => { id := s.id, name := s.label.getD s.id }

theorem draft_source (hs : s.source lookup = some t) (ht : t.Finite) :
    ∃ bs, Task.Under bs t ∧
      s.draft lookup = some (s.data.elim (.obj bs) (Json.overlay (.obj bs))) := by
  obtain ⟨id, kind, position, taskId, label, enabled, data, subflow⟩ := s
  cases taskId with
  | none =>
    cases data with
    | none => cases hs
    | some data =>
      cases hs
      exact ⟨_, Task.under_named id (label.getD id), rfl⟩
  | some taskId =>
    obtain ⟨bs, hbs, hunder⟩ := Task.under_written ht
    have hknown : lookup taskId = some t := hs
    refine ⟨bs, hunder, ?_⟩
    cases data <;> simp only [draft, hknown, Option.map_some, hbs, Option.elim]

theorem taskOf_eq (hj : s.draft lookup = some j) (ht : Task.codec.read j = .ok t) :
    s.taskOf lookup = some t.normalized := by
  simp [taskOf, hj, ht, Except.toOption]

/-- The task of a node is the one its data is laid over, but for what the data names. -/
theorem Fits.overrides (hfits : s.Fits lookup) (hk : ¬ s.kind.isBoundary)
    (hs : s.source lookup = some t) (ht : t.Finite) (hdata : s.data = some (.obj os))
    (hos : (Json.obj os).IsSorted) :
    ∃ u, t.Overrides os u ∧ s.taskOf lookup = some u.normalized := by
  obtain ⟨bs, hunder, hdraft⟩ := draft_source hs ht
  obtain ⟨u, hu⟩ := hfits.decodes hk _ hdraft
  refine ⟨u, ?_, taskOf_eq hdraft hu⟩
  rw [hdata] at hu
  exact hunder.overrides hos hu

/-- Without data, and with empty data, the task is the one the data would be laid over. -/
theorem taskOf_plain (hs : s.source lookup = some t) (ht : t.Finite)
    (hdata : s.data = none ∨ s.data = some (.obj [])) : s.taskOf lookup = some t.normalized := by
  obtain ⟨bs, hunder, hdraft⟩ := draft_source hs ht
  refine taskOf_eq hdraft ?_
  rcases hdata with hdata | hdata
  · rw [hdata]
    exact hunder.reads
  · rw [hdata]
    exact hunder.reads

end NodeSpec

-- ---------------------------------------------------------------------------
-- Keys that no task has
-- ---------------------------------------------------------------------------

/-- The data without the keys that a configuration does not have. -/
def Task.Config.pruned : Json → Json
  | .obj fields => .obj (record.known fields)
  | j => j

/-- What stands under a key without the keys that a configuration does not have, if it is one. -/
def Task.prunedField (key : String) (j : Json) : Json :=
  if key = "config" then Config.pruned j else j

/-- The data without the keys that a task does not have, also inside its configuration. -/
def Task.pruned : Json → Json
  | .obj fields => .obj ((record.known fields).map fun (k, j) => (k, prunedField k j))
  | j => j

theorem Task.Config.read_pruned {below : Json} (hbelow : below.IsSorted) (hj : j.IsSorted) :
    record.codec.read (below.overlay (pruned j)) = record.codec.read (below.overlay j) := by
  cases j with
  | obj fields => exact Record.read_overlay_known hbelow hj
  | _ => rfl

theorem Task.Config.read_pruned_top (hj : j.IsSorted) :
    record.codec.read (pruned j) = record.codec.read j := by
  have h : record.codec.read (Json.null.overlay (pruned j)) = _ := read_pruned trivial hj
  rwa [Json.overlay_replaces (.inl (by simp)), Json.overlay_replaces (.inl (by simp))] at h

theorem Task.Config.pruned_isSorted (hj : j.IsSorted) : (pruned j).IsSorted := by
  cases j with
  | obj fields => exact Record.known_isSorted hj
  | _ => exact hj

theorem Task.prunedField_isSorted {k : String} (hj : j.IsSorted) : (prunedField k j).IsSorted := by
  unfold prunedField
  split
  · exact Config.pruned_isSorted hj
  · exact hj

theorem Task.read_pruned (hbs : (Json.obj bs).IsSorted) (hdata : data.IsSorted) :
    codec.read ((Json.obj bs).overlay (pruned data)) = codec.read ((Json.obj bs).overlay data) := by
  cases data with
  | obj fields =>
    have hknown : (Json.obj (record.known fields)).IsSorted := Record.known_isSorted hdata
    obtain ⟨hkeys, hvalues⟩ := Json.isSorted_obj.mp hknown
    have hpruned : (pruned (.obj fields)).IsSorted := by
      refine Json.isSorted_obj.mpr ⟨by rwa [List.map_map], fun f hf => ?_⟩
      obtain ⟨g, hg, rfl⟩ := List.mem_map.mp hf
      exact prunedField_isSorted (hvalues g hg)
    refine Eq.trans ?_ (Record.read_overlay_known hbs hdata)
    refine Record.read_congr (Json.overlayFields_isSorted hbs hpruned.2)
      (Json.overlayFields_isSorted hbs hknown.2) fun k f hf => ?_
    rw [Json.lookup_overlayFields (hpruned.1.imp fun h => h.ne),
      Json.lookup_overlayFields (hknown.1.imp fun h => h.ne), Json.lookup_map]
    cases hlookup : Json.lookup k (record.known fields) with
    | none => rfl
    | some j =>
      by_cases hk : k = "config"
      · subst hk
        have hj : j.IsSorted := hknown.of_lookup hlookup
        obtain rfl := Option.some.inj (hf.symm.trans find_config)
        cases hb : Json.lookup "config" bs with
        | none => simp [prunedField, configField, Field.defaulted, Config.read_pruned_top hj]
        | some b =>
          simp [prunedField, configField, Field.defaulted, Config.read_pruned (hbs.of_lookup hb) hj]
      · simp [prunedField, hk]
  | _ => rfl

theorem Record.write_readable {α : Type} {r : Record α} {a : α}
    (h : ∀ f ∈ r.fields, ∀ w, f.write a = some w → w.readable) : (r.codec.write a).readable := by
  show Json.readableFields (r.written a)
  rw [Json.readableFields_eq, List.all_eq_true]
  rintro ⟨k, j⟩ hmem
  obtain ⟨f, hf, -, hw⟩ := mem_written.mp hmem
  exact h f hf j hw

theorem string_readable (s : String) : (Codec.string.write s).readable := rfl

theorem strings_readable (ss : List String) : (Codec.string.list.write ss).readable := by
  show Json.readableItems (ss.map .str)
  induction ss with
  | nil => rfl
  | cons s ss ih => exact ih

theorem float_readable (x : Float) : (Codec.float.write x).readable := by
  show (Json.ofFloat x).readable
  unfold Json.ofFloat
  split <;> rfl

theorem Task.Config.write_readable (c : Config) : (record.codec.write c).readable := by
  refine Record.write_readable ?_
  simp [record, Field.omitted, Field.defaulted, string_readable, float_readable, strings_readable]

theorem Task.write_readable (t : Task) : (codec.write t).readable := by
  refine Record.write_readable ?_
  simp [record, Field.required, Field.defaulted, string_readable, Config.write_readable]

namespace NodeSpec

theorem baseTask_sorted {base : Json} (h : s.baseTask lookup = .ok (some base)) :
    ∃ bs, base = .obj bs ∧ (Json.obj bs).IsSorted := by
  unfold baseTask at h
  split at h
  · split at h
    · rename_i t _
      cases h
      exact ⟨_, rfl, Json.canonical_isSorted (Task.write_readable t)⟩
    · cases h
  · split at h
    · cases h
      refine ⟨_, rfl, Json.isSorted_obj.mpr ⟨?_, ?_⟩⟩
      · simpa using String.lt_iff_toList_lt.mpr (by decide)
      · simp [Json.IsSorted]
    · cases h

variable {inner : Option LevelSpec}

theorem mergedTask_pruned (hdata : ∀ j, s.data = some j → j.IsSorted) :
    mergedTask lookup { s with data := s.data.map Task.pruned, subflow := inner } =
      s.mergedTask lookup := by
  have hbase : baseTask lookup { s with data := s.data.map Task.pruned, subflow := inner } =
      s.baseTask lookup := by
    simp only [baseTask, Option.isSome_map]
  unfold mergedTask
  rw [hbase]
  rcases hb : s.baseTask lookup with e | _ | base
  · rfl
  · rfl
  · obtain ⟨bs, rfl, hbs⟩ := baseTask_sorted hb
    cases hd : s.data with
    | none => rfl
    | some data =>
      simp only [bind, Except.bind, Option.map_some, Task.read_pruned hbs (hdata data hd)]

theorem task_pruned (hdata : ∀ j, s.data = some j → j.IsSorted)
    (hinner : inner.isSome = s.subflow.isSome) :
    task lookup { s with data := s.data.map Task.pruned, subflow := inner } = s.task lookup := by
  simp only [task, mergedTask_pruned hdata, Option.isSome_map, hinner]

end NodeSpec

namespace LevelSpec

mutual

/-- The spec without the keys in its data, at every depth, that a task does not have. -/
def pruned : LevelSpec → LevelSpec
  | ⟨nodes, edges⟩ => ⟨prunedNodes nodes, edges⟩

def prunedNodes : List NodeSpec → List NodeSpec
  | [] => []
  | ⟨id, kind, position, taskId, label, enabled, data, subflow⟩ :: rest =>
    ⟨id, kind, position, taskId, label, enabled, data.map Task.pruned, prunedSubflow subflow⟩ ::
      prunedNodes rest

def prunedSubflow : Option LevelSpec → Option LevelSpec
  | none => none
  | some sub => some sub.pruned

end

/-- All data of the nodes are maps at every depth. -/
def DataIsSorted (spec : LevelSpec) : Prop :=
  ∀ s ∈ spec.nodes, ∀ j, s.data = some j → j.IsSorted

variable {ss : List NodeSpec} {seen : List String}

theorem prunedNodes_ids : (prunedNodes ss).map (·.id) = ss.map (·.id) := by
  induction ss with
  | nil => rfl
  | cons s ss ih =>
    obtain ⟨id, kind, position, taskId, label, enabled, data, subflow⟩ := s
    exact congrArg (id :: ·) ih

theorem buildNodes_pruned (hdata : ∀ s ∈ ss, ∀ j, s.data = some j → j.IsSorted)
    (hsub : ∀ s ∈ ss, ∀ sub, s.subflow = some sub → sub.pruned.build lookup = sub.build lookup) :
    buildNodes lookup seen (prunedNodes ss) = buildNodes lookup seen ss := by
  induction ss generalizing seen with
  | nil => rfl
  | cons s ss ih =>
    obtain ⟨hs, hss⟩ := List.forall_mem_cons.mp hdata
    obtain ⟨hsub, hsubs⟩ := List.forall_mem_cons.mp hsub
    obtain ⟨id, kind, position, taskId, label, enabled, data, subflow⟩ := s
    have hinner : (prunedSubflow subflow).isSome = subflow.isSome := by
      cases subflow <;> rfl
    have hbuilt : buildSubflow lookup (prunedSubflow subflow) = buildSubflow lookup subflow := by
      cases subflow with
      | none => rfl
      | some sub => simp only [prunedSubflow, buildSubflow, hsub sub rfl]
    have htask : NodeSpec.task lookup _ = _ := NodeSpec.task_pruned hs hinner
    simp only at htask
    simp only [prunedNodes, buildNodes, htask, hbuilt, ih hss hsubs]
    rfl

theorem build_pruned (h : spec.Everywhere DataIsSorted) :
    spec.pruned.build lookup = spec.build lookup := by
  induction h with
  | @intro spec hdata _ ih =>
    obtain ⟨nodes, edges⟩ := spec
    simp only [pruned, build, buildNodes_pruned hdata ih, prunedNodes_ids]

end LevelSpec

-- ---------------------------------------------------------------------------
-- Whole specs
-- ---------------------------------------------------------------------------

/-- The node stands in the level, at any depth, where the node spec stands in the spec. -/
inductive LevelSpec.Pairs : LevelSpec → Level → NodeSpec → Node → Prop
  | here {spec : LevelSpec} {l : Level} {i : Nat} {s : NodeSpec} {n : Node} :
    spec.nodes[i]? = some s → l.nodes[i]? = some n → Pairs spec l s n
  | inside {spec sub : LevelSpec} {l l' : Level} {i : Nat} {s s' : NodeSpec} {n n' : Node} :
    spec.nodes[i]? = some s → l.nodes[i]? = some n → s.subflow = some sub → n.subflow = some l' →
      Pairs sub l' s' n' → Pairs spec l s' n'

theorem LevelSpec.Mirrors.pair (h : spec.Mirrors lookup laid l) (hp : spec.Pairs l s n) :
    s.Mirrors lookup laid n := by
  induction hp with
  | here hs hn =>
    obtain ⟨-, nodes, -, -⟩ := h
    exact nodes _ _ _ hs hn
  | inside hs hn hsub hl _ ih =>
    obtain ⟨-, -, -, inside⟩ := h
    exact ih (inside _ _ _ _ _ hs hn hsub hl)

theorem LevelSpec.Everywhere.pair {P : LevelSpec → Prop} (h : spec.Everywhere P)
    (hp : spec.Pairs l s n) : ∃ level, P level ∧ s ∈ level.nodes := by
  induction hp with
  | here hs hn =>
    obtain ⟨hspec, -⟩ := h
    exact ⟨_, hspec, List.mem_of_getElem? hs⟩
  | inside hs hn hsub hl _ ih =>
    obtain ⟨-, hinside⟩ := h
    exact ih (hinside _ (List.mem_of_getElem? hs) _ hsub)

theorem NodeSpec.Fits.inner (h : s.Fits lookup) (hs : s.source lookup = some t) :
    ¬ s.kind.isBoundary := by
  intro hk
  obtain ⟨htask, hdata, -⟩ := h.boundary hk
  simp [source, htask, hdata] at hs

namespace WorkflowSpec

def pruned (w : WorkflowSpec) : WorkflowSpec :=
  { w with toLevelSpec := w.toLevelSpec.pruned }

theorem buildWith_pruned {layout : Option Layout} {w : WorkflowSpec}
    (h : w.toLevelSpec.Everywhere LevelSpec.DataIsSorted) :
    w.pruned.buildWith lookup layout = w.buildWith lookup layout := by
  simp only [buildWith, build, pruned, LevelSpec.build_pruned h]

/-- Data with keys that no task has, over a task with a model and with lists. -/
def changed : List (String × Json) := [
  ("config", .obj [
    ("model", .null), ("size", .int 3), ("tools", .arr [.str "x", .str "y", .str "x"])]),
  ("name", .str "Changed"),
  ("owner", .bool true)]

def changedSpec : WorkflowSpec where
  nodes := [{ id := "a", kind := .task, taskId := some "t1", data := some (.obj changed) }]

def modelled : Task where
  id := "t1"
  name := "Alpha"
  icon := "A"
  config := { model := some "m", tools := ["z"], agents := ["p", "p"] }

theorem changed_isSorted : (Json.obj changed).IsSorted := by
  simp only [changed, Json.IsSorted, Json.ItemsAreSorted, Json.FieldsAreSorted,
    String.lt_iff_toList_lt, List.map_cons, List.map_nil, and_true]
  decide

end WorkflowSpec

end Workflow

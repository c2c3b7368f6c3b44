import Workflow.Merge.Synthesis
import Workflow.Proofs.Task.Union

/-!
# Sound graphs

What every graph keeps that is built from a spec and edited: more than the check asks for. The check
knows nothing of the data of boundary nodes, of duplicates in the sets of a task, of the number of
merged tasks, or of phases.
-/

namespace Workflow

structure Task.Config.Tidy (c : Config) : Prop where
  tools : c.tools.Nodup
  agents : c.agents.Nodup
  rags : c.rags.Nodup

def Task.Tidy (t : Task) : Prop := t.config.Tidy

structure TaskData.Tidy (d : TaskData) : Prop where
  task : d.task.Tidy
  combined : ∀ ts, d.combined = some ts → 2 ≤ ts.length ∧ ∀ t ∈ ts, t.Tidy

/-- A level that is sound on its own, whatever its subflows are. -/
structure Level.Sound (l : Level) : Prop extends l.Valid where
  boundaries : ∀ n ∈ l.nodes, n.kind.isBoundary → n.data = none
  tidy : ∀ n ∈ l.nodes, ∀ d, n.data = some d → d.Tidy

/-- A graph that is sound at every depth and whose phases list root nodes only. -/
structure Graph.Sound (g : Graph) : Prop where
  levels : g.toLevel.Everywhere Level.Sound
  phases : ∀ ph ∈ g.phases, ∀ id ∈ ph.nodeIds, id ∈ g.nodeIds

theorem Graph.Sound.validate {g : Graph} (h : g.Sound) : g.validate = .ok () :=
  Level.validate_ok.mpr (h.levels.mono fun _ h => h.toValid)

variable {t : Task} {d : TaskData} {n : Node} {l : Level} {id : String} {f : TaskData → TaskData}
variable {g : Node → Node} {position : Option Position}

-- ---------------------------------------------------------------------------
-- Tidy tasks
-- ---------------------------------------------------------------------------

theorem normalized_tidy (t : Task) : t.normalized.Tidy :=
  ⟨nodup_distinct _, nodup_distinct _, nodup_distinct _⟩

theorem config_tidy (target dropped : Task) (ts : List Task) :
    (Merge.config target dropped ts).Tidy :=
  ⟨nodup_eraseDups _, nodup_eraseDups _, nodup_eraseDups _⟩

theorem TaskData.Tidy.sourceTasks (h : d.Tidy) (ht : t ∈ d.sourceTasks) : t.Tidy := by
  unfold TaskData.sourceTasks at ht
  split at ht
  · rename_i hc
    exact (h.combined _ hc).2 t ht
  · obtain rfl := List.mem_singleton.mp ht
    exact h.task

-- ---------------------------------------------------------------------------
-- Soundness node by node
-- ---------------------------------------------------------------------------

structure Node.Sound (n : Node) : Prop where
  task : n.kind = .task → n.carriesTask
  boundary : n.kind.isBoundary → n.data = none
  tidy : ∀ d, n.data = some d → d.Tidy
  inside : ∀ sub, n.subflow = some sub → sub.Everywhere Level.Sound

theorem Level.sound_iff : l.Everywhere Sound ↔ l.ConsistsOf Node.Sound := by
  constructor
  · intro h
    have hl := h.here
    exact ⟨hl.ids, fun n hn => ⟨hl.tasks n hn, hl.boundaries n hn, hl.tidy n hn,
      fun sub hs => h.inside hn hs⟩, hl.edges⟩
  · rintro ⟨hd, hn, he⟩
    exact .intro ⟨⟨hd, fun n h => (hn n h).task, he⟩, fun n h => (hn n h).boundary,
      fun n h => (hn n h).tidy⟩ fun n h sub hs => (hn n h).inside sub hs

theorem Level.empty_sound : Everywhere Sound {} :=
  Level.sound_iff.mpr ⟨.nil, nofun, nofun⟩

theorem ofTask_sound : (Node.ofTask id t position).Sound where
  task _ := rfl
  boundary h := nomatch h
  tidy d hd := by
    cases hd
    exact ⟨normalized_tidy t, nofun⟩
  inside sub hs := nomatch hs

theorem Node.Sound.mapData (h : n.Sound) (ht : ∀ d, n.data = some d → (f d).Tidy)
    (hi : ∀ d sub, n.data = some d → (f d).subflow = some sub → sub.Everywhere Level.Sound) :
    (n.mapData f).Sound where
  task hk := by
    have := h.task hk
    simpa [Node.carriesTask] using this
  boundary hk := by simp [h.boundary hk]
  tidy d hd := by
    obtain ⟨was, hwas, rfl⟩ := Option.map_eq_some_iff.mp hd
    exact ht was hwas
  inside sub hs := by
    cases hd : n.data with
    | none => simp [Node.subflow, hd] at hs
    | some d => exact hi d sub hd (by simpa [Node.subflow, hd] using hs)

/-- Changing a node and not its id leaves a level sound, if the node is. -/
theorem Level.mapNode_sound (h : l.Everywhere Sound) (hid : ∀ n, n.id = id → (g n).id = id)
    (hg : ∀ n ∈ l.nodes, n.id = id → (g n).Sound) : (l.mapNode id g).Everywhere Sound :=
  sound_iff.mpr ((sound_iff.mp h).mapNode hid hg)

end Workflow

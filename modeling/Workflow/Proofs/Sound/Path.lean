import Workflow.Proofs.Graph.Route
import Workflow.Proofs.Sound.Edit

/-!
# Sound edits at a path

What a sound edit does to one level keeps the whole graph sound: below the root only the subflow of
one node changes, and at the root the phases follow the departure of the edit.
-/

namespace Workflow

variable {α : Type} {f : Level → Edited α} {a : α} {l l' sub : Level} {g g' : Graph} {depth k : Nat}
variable {id : String} {path : Path} {c : Layout} {dep : Departure} {ph : Phase}

-- ---------------------------------------------------------------------------
-- Below the root
-- ---------------------------------------------------------------------------

/-- Putting a sound subflow in the place of another leaves a level sound. -/
theorem Level.setSubflow_sound (hl : l.Everywhere Sound) (hsub : sub.Everywhere Sound) :
    (l.mapNode id (·.setSubflow sub)).Everywhere Sound := by
  obtain ⟨-, hn, -⟩ := sound_iff.mp hl
  refine mapNode_sound hl (fun _ h => h) fun n hmem _ => ?_
  have hsound := hn n hmem
  refine hsound.mapData (fun d hd => ?_) fun d sub' hd hs => ?_
  · exact ⟨(hsound.tidy d hd).task, (hsound.tidy d hd).combined⟩
  · cases hs
    exact hsub

theorem Level.editAt_sound (hf : SoundEdit f) (hl : l.Everywhere Sound)
    (h : l.editAt f depth path = .ok (a, l')) :
    l'.Everywhere Sound ∧ (path ≠ [] → l'.nodeIds = l.nodeIds) ∧
      ∃ at', at'.Everywhere Sound ∧ a = (f at').result := by
  obtain ⟨m, hm, rfl, rfl⟩ := editAt_ok h
  have hsound := hl.of_reaches hm
  refine ⟨hl.replaceAt setSubflow_sound (hf m hsound).1 hm, fun hne => ?_, m, hsound, rfl⟩
  obtain ⟨id, path, rfl⟩ := List.exists_cons_of_ne_nil hne
  exact nodeIds_mapNode fun _ h => h

theorem Level.resolve_sound (hl : l.Everywhere Sound) (h : l.resolve depth path = .ok l') :
    l'.Everywhere Sound := hl.of_reaches (resolve_ok.mp h)

-- ---------------------------------------------------------------------------
-- At the root
-- ---------------------------------------------------------------------------

/-- A phase that lists ids of a level lists ids of the level after a departure. -/
theorem Departed.phase (h : Departed l l' (some dep)) (hph : ∀ id ∈ ph.nodeIds, id ∈ l.nodeIds)
    (hid : id ∈ (ph.afterDeparture dep).nodeIds) : id ∈ l'.nodeIds := by
  by_cases hlisted : dep.removed ∈ ph.nodeIds
  · rcases (Phase.mem_afterDeparture hlisted).mp hid with ⟨hold, hne⟩ | hs
    · refine h.stays id (hph id hold) ?_
      rintro _ ⟨⟩
      exact hne
    · exact h.survivor dep rfl id hs
  · rw [Phase.afterDeparture_of_not_mem hlisted] at hid
    refine h.stays id (hph id hid) ?_
    rintro _ ⟨⟩ rfl
    exact hlisted hid

theorem Graph.edit_sound (hf : SoundEdit f) (hg : g.Sound) : (g.edit f).2.Sound := by
  obtain ⟨hl, hdeparted⟩ := hf g.toLevel hg.levels
  refine ⟨hl, ?_⟩
  intro ph hph id hid
  show id ∈ (f g.toLevel).level.nodeIds
  simp only [edit] at hph
  cases hd : (f g.toLevel).departure with
  | none =>
    rw [hd] at hph hdeparted
    refine hdeparted.stays id (hg.phases ph hph id hid) fun _ hdep => ?_
    cases hdep
  | some dep =>
    rw [hd] at hph hdeparted
    obtain ⟨was, hwas, rfl⟩ := List.mem_map.mp hph
    exact hdeparted.phase (hg.phases was hwas) hid

theorem Graph.editAt_sound (hf : SoundEdit f) (hg : g.Sound) (h : g.editAt f path = .ok (a, g')) :
    g'.Sound ∧ ∃ l, l.Everywhere Level.Sound ∧ a = (f l).result := by
  cases path with
  | nil =>
    cases h
    exact ⟨edit_sound hf hg, g.toLevel, hg.levels, rfl⟩
  | cons id path =>
    simp only [editAt, bind_ok] at h
    obtain ⟨_, -, ⟨x, root⟩, hedit, h⟩ := h
    cases h
    obtain ⟨hroot, hids, hresult⟩ := Level.editAt_sound hf hg.levels hedit
    refine ⟨⟨hroot, fun ph hph id hid => ?_⟩, hresult⟩
    -- An edit below the root leaves the ids of the root alone.
    rw [hids (List.cons_ne_nil _ _)]
    exact hg.phases ph hph id hid

-- ---------------------------------------------------------------------------
-- Layouts
-- ---------------------------------------------------------------------------

theorem nodeIds_of_unplaced (h : l.unplaced = l'.unplaced) : l.nodeIds = l'.nodeIds := by
  have hnodes := congrArg (fun l => l.nodes.map (·.id)) h
  simpa [Level.unplaced_nodes, Level.nodeIds, Node.unplaced, Function.comp_def] using hnodes

/-- Soundness of a single level does not depend on positions. -/
theorem sound_of_unplaced (h : l.unplaced = l'.unplaced) (hl : l.Sound) : l'.Sound := by
  have hids := nodeIds_of_unplaced h
  have hedges : l.edges = l'.edges := by rw [← Level.unplaced_edges, h, Level.unplaced_edges]
  have same : ∀ m ∈ l'.nodes, ∃ n ∈ l.nodes, n.kind = m.kind ∧
      n.data.map TaskData.unplaced = m.data.map TaskData.unplaced := by
    intro m hm
    obtain ⟨n, hn, hnm⟩ := Level.exists_unplaced h hm
    refine ⟨n, hn, by simpa using congrArg Node.kind hnm, ?_⟩
    rw [← Node.unplaced_data, hnm, Node.unplaced_data]
  refine ⟨⟨hids ▸ hl.ids, ?_, hids ▸ hedges ▸ hl.edges⟩, ?_, ?_⟩
  · intro m hm hk
    obtain ⟨n, hn, hkind, hdata⟩ := same m hm
    have hcarries := hl.tasks n hn (hkind.trans hk)
    have hsome := congrArg Option.isSome hdata
    simp only [Option.isSome_map] at hsome
    exact hsome.symm.trans hcarries
  · intro m hm hk
    obtain ⟨n, hn, hkind, hdata⟩ := same m hm
    rw [hl.boundaries n hn (hkind ▸ hk)] at hdata
    exact Option.map_eq_none_iff.mp hdata.symm
  · intro m hm d hd
    obtain ⟨n, hn, -, hdata⟩ := same m hm
    rw [hd] at hdata
    obtain ⟨was, hwas, hsame⟩ := Option.map_eq_some_iff.mp hdata
    have htidy := hl.tidy n hn was hwas
    have htask : was.task = d.task := by simpa using congrArg TaskData.task hsame
    have hcombined : was.combined = d.combined := by simpa using congrArg TaskData.combined hsame
    exact ⟨htask ▸ htidy.task, hcombined ▸ htidy.combined⟩

theorem Layout.apply_sound (hl : l.Everywhere Level.Sound) (h : c.apply l = some (l', k)) :
    l'.Everywhere Level.Sound ∧ l'.nodeIds = l.nodeIds := by
  have hsame := apply_unplaced h
  exact ⟨hl.of_unplaced (fun _ _ => sound_of_unplaced) hsame.symm, nodeIds_of_unplaced hsame⟩

end Workflow

import Workflow.Build.Builder
import Workflow.Proofs.Sound.Path

/-!
# Built graphs are sound

A build that succeeds has made one node for each node spec, from a task and a subflow that were
built for it. By induction on the nesting of the spec, all levels it makes are sound.
-/

namespace Workflow

variable {lookup : Lookup} {s : NodeSpec} {ss : List NodeSpec} {n : Node} {ns : List Node}
variable {spec sub : LevelSpec} {l : Level} {ids given seen : List String} {built es : List Edge}
variable {specs : List EdgeSpec} {t : Option Task} {w : WorkflowSpec} {g : Graph}

theorem LevelSpec.subflow_lt (hs : s ∈ spec.nodes) (h : s.subflow = some sub) :
    sizeOf sub < sizeOf spec := by
  obtain ⟨nodes, edges⟩ := spec
  have hlt := List.sizeOf_lt_of_mem hs
  obtain ⟨id, kind, position, taskId, label, enabled, data, subflow⟩ := s
  simp only at h
  subst h
  simp only [LevelSpec.mk.sizeOf_spec, NodeSpec.mk.sizeOf_spec, Option.some.sizeOf_spec] at hlt ⊢
  omega

/-- What holds of a spec as soon as it holds of the subflows of its nodes holds of all specs. -/
@[elab_as_elim]
theorem LevelSpec.induction {P : LevelSpec → Prop}
    (h : ∀ spec, (∀ s ∈ spec.nodes, ∀ sub, s.subflow = some sub → P sub) → P spec)
    (spec : LevelSpec) : P spec :=
  h spec fun _ hs sub hsub =>
    have := subflow_lt hs hsub
    LevelSpec.induction h sub
termination_by sizeOf spec

-- ---------------------------------------------------------------------------
-- Tasks
-- ---------------------------------------------------------------------------

theorem NodeSpec.task_boundary (h : s.task lookup = .ok t) (hk : s.kind.isBoundary) : t = none := by
  simp only [task, hk, if_true] at h
  split at h
  · cases h
  · cases h
    rfl

/-- A task of a node spec is tidy, and a task node has one. -/
theorem NodeSpec.task_inner (h : s.task lookup = .ok t) (hk : ¬ s.kind.isBoundary) :
    (s.kind = .task → t.isSome) ∧ ∀ x ∈ t, x.Tidy := by
  rw [task, if_neg hk, bind_ok] at h
  obtain ⟨m, -, h⟩ := h
  split at h
  · cases h
    exact ⟨fun _ => rfl, fun x hx => by cases hx; exact normalized_tidy _⟩
  · split at h
    · cases h
    · rename_i hneed
      cases h
      exact ⟨fun hk => absurd (.inl hk) hneed, nofun⟩

-- ---------------------------------------------------------------------------
-- Nodes and edges
-- ---------------------------------------------------------------------------

/-- A node made of the task and the subflow that were built for its spec. -/
def Built (lookup : Lookup) (s : NodeSpec) (n : Node) : Prop :=
  ∃ task sub, s.task lookup = .ok task ∧ LevelSpec.buildSubflow lookup s.subflow = .ok sub ∧
    n = s.toNode task sub

theorem LevelSpec.buildSubflow_ok {o : Option LevelSpec} {o' : Option Level} :
    buildSubflow lookup o = .ok o' ↔
      o = none ∧ o' = none ∨ ∃ sub l, o = some sub ∧ o' = some l ∧ sub.build lookup = .ok l := by
  cases o with
  | none => simp [buildSubflow, eq_comm]
  | some sub => cases h : sub.build lookup <;> simp [buildSubflow, h, Except.map, eq_comm]

theorem LevelSpec.buildNodes_ok (h : buildNodes lookup seen ss = .ok ns) :
    List.Forall₂ (Built lookup) ss ns ∧ (ss.map (·.id)).Nodup ∧ ∀ s ∈ ss, s.id ∉ seen := by
  induction ss generalizing seen ns with
  | nil =>
    cases h
    exact ⟨.nil, .nil, nofun⟩
  | cons s ss ih =>
    obtain ⟨id, kind, position, taskId, label, enabled, data, subflow⟩ := s
    simp only [buildNodes] at h
    split at h
    · cases h
    rename_i hfresh
    simp only [bind_ok] at h
    obtain ⟨task, htask, sub, hsub, rest, hrest, h⟩ := h
    cases h
    obtain ⟨hbuilt, hnodup, hseen⟩ := ih hrest
    refine ⟨.cons ⟨task, sub, htask, hsub, rfl⟩ hbuilt, ?_, ?_⟩
    · refine List.nodup_cons.mpr ⟨fun hmem => ?_, hnodup⟩
      obtain ⟨s, hs, hid⟩ := List.mem_map.mp hmem
      exact hseen s hs (List.mem_cons.mpr (.inl hid))
    · intro s hs
      rcases List.mem_cons.mp hs with rfl | hs
      · exact hfresh
      · exact fun hmem => hseen s hs (List.mem_cons_of_mem _ hmem)

theorem EdgeSpec.build_within (h : build ids given built specs = .ok es)
    (hb : ∀ e ∈ built, e.Within ids) : ∀ e ∈ es, e.Within ids := by
  induction specs generalizing built with
  | nil =>
    cases h
    exact hb
  | cons s specs ih =>
    simp only [build] at h
    split at h
    · cases h
    rename_i hs
    split at h
    · cases h
    rename_i ht
    refine ih h fun e he => ?_
    rcases List.mem_append.mp he with he | he
    · exact hb e he
    · obtain rfl := List.mem_singleton.mp he
      exact ⟨by simpa using hs, by simpa using ht⟩

-- ---------------------------------------------------------------------------
-- Levels
-- ---------------------------------------------------------------------------

theorem Built.id (h : Built lookup s n) : n.id = s.id := by
  obtain ⟨task, sub, -, -, rfl⟩ := h
  rfl

theorem Built.sound (h : Built lookup s n)
    (hsub : ∀ spec, s.subflow = some spec → ∀ l, spec.build lookup = .ok l →
      l.Everywhere Level.Sound) : n.Sound := by
  obtain ⟨task, sub, htask, hbuild, rfl⟩ := h
  have hinside : ∀ l, sub = some l → l.Everywhere Level.Sound := by
    rintro l rfl
    rcases LevelSpec.buildSubflow_ok.mp hbuild with ⟨-, hnone⟩ | ⟨spec, _, hs, hsome, hl⟩
    · cases hnone
    · cases hsome
      exact hsub spec hs l hl
  by_cases hk : s.kind.isBoundary
  · obtain rfl := NodeSpec.task_boundary htask hk
    refine ⟨fun htask => ?_, fun _ => rfl, ?_, ?_⟩
    · have htask : s.kind = .task := htask
      rw [htask] at hk
      cases hk
    · intro d hd
      cases hd
    · intro l hl
      cases hl
  · obtain ⟨hneed, htidy⟩ := NodeSpec.task_inner htask hk
    refine ⟨fun htask => ?_, fun hb => absurd hb hk, ?_, ?_⟩
    · simpa [Node.carriesTask, NodeSpec.toNode] using hneed htask
    · intro d hd
      obtain ⟨x, hx, rfl⟩ := Option.map_eq_some_iff.mp hd
      refine ⟨htidy x hx, fun ts hts => ?_⟩
      cases hts
    · intro l hl
      cases task with
      | none => cases hl
      | some x => exact hinside l hl

theorem built_ids (h : List.Forall₂ (Built lookup) ss ns) : ns.map (·.id) = ss.map (·.id) := by
  induction h with
  | nil => rfl
  | cons h _ ih => rw [List.map_cons, List.map_cons, h.id, ih]

theorem LevelSpec.build_sound (h : spec.build lookup = .ok l) : l.Everywhere Level.Sound := by
  induction spec using LevelSpec.induction generalizing l with
  | h spec ih =>
    obtain ⟨nodes, edges⟩ := spec
    simp only [build, bind_ok] at h
    obtain ⟨ns, hns, es, hes, h⟩ := h
    cases h
    obtain ⟨hbuilt, hnodup, -⟩ := buildNodes_ok hns
    have hids := built_ids hbuilt
    refine Level.sound_iff.mpr ⟨?_, fun n hn => ?_, ?_⟩
    · rw [Level.nodeIds_mk, hids]
      exact hnodup
    · obtain ⟨s, hs, hb⟩ := exists_of_forall₂ hbuilt hn
      exact hb.sound fun sub hsub l hl => ih s hs sub hsub hl
    · rw [Level.nodeIds_mk, hids]
      exact EdgeSpec.build_within hes nofun

-- ---------------------------------------------------------------------------
-- Graphs
-- ---------------------------------------------------------------------------

theorem WorkflowSpec.build_sound (h : w.build lookup = .ok g) : g.Sound := by
  simp only [build, bind_ok] at h
  obtain ⟨l, hl, h⟩ := h
  cases h
  refine ⟨LevelSpec.build_sound hl, fun ph hph id hid => ?_⟩
  obtain ⟨p, -, rfl⟩ := List.mem_map.mp hph
  simpa using (List.mem_filter.mp hid).2

theorem Layout.applyGraph_sound {c : Layout} {g' : Graph} {k : Nat} (hg : g.Sound)
    (h : c.applyGraph g = some (g', k)) : g'.Sound := by
  obtain ⟨⟨l, k⟩, hl, h⟩ := Option.map_eq_some_iff.mp h
  cases h
  obtain ⟨hsound, hids⟩ := apply_sound hg.levels hl
  refine ⟨hsound, fun ph hph id hid => ?_⟩
  rw [hids]
  exact hg.phases ph hph id hid

/-- Every graph that a build gives is sound, with a layout or without. -/
theorem WorkflowSpec.buildWith_sound {layout : Option Layout}
    (h : w.buildWith lookup layout = .ok (some g)) : g.Sound := by
  simp only [buildWith, bind_ok] at h
  obtain ⟨built, hbuilt, h⟩ := h
  have hsound := build_sound hbuilt
  cases layout with
  | none =>
    cases h
    exact hsound
  | some c =>
    obtain ⟨⟨placed, k⟩, hplaced, hg⟩ := Option.map_eq_some_iff.mp (Except.ok.inj h)
    cases hg
    exact Layout.applyGraph_sound hsound hplaced

end Workflow

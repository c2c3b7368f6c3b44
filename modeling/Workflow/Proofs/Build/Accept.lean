import Mathlib.Data.List.Duplicate
import Workflow.Proofs.Sound.Build

/-!
# Which specs can be built

`LevelSpec.Fits` says when a level of a spec is well-formed, without building it, and
`LevelSpec.Defect` what the errors of a build are about. A build succeeds exactly if all levels of
its spec fit; if it fails, the error is about a defect of one of them.
-/

namespace Workflow

variable {lookup : Lookup} {s : NodeSpec} {ss : List NodeSpec} {spec sub : LevelSpec} {l : Level}
variable {ids given seen : List String} {built es : List Edge} {specs : List EdgeSpec}
variable {t : Option Task} {e : BuildError} {ns : List Node} {x : EdgeSpec} {P Q : LevelSpec → Prop}

-- ---------------------------------------------------------------------------
-- Nodes
-- ---------------------------------------------------------------------------

namespace NodeSpec

/-- What the task of a node is read from: the catalog task or else, for data alone, a task with the
id of the node and its label as name, with the data laid over it. None if there is neither. -/
def draft (lookup : Lookup) (s : NodeSpec) : Option Json :=
  let base :=
    match s.taskId with
    | some taskId => (lookup taskId).map fun t => (Task.codec.write t).canonical
    | none => s.data.map fun _ => .obj [("id", .str s.id), ("name", .str (s.label.getD s.id))]
  base.map fun base =>
    match s.data with
    | some data => base.overlay data
    | none => base

/-- A node spec that is well-formed on its own, whatever its subflow is. -/
structure Fits (lookup : Lookup) (s : NodeSpec) : Prop where
  boundary : s.kind.isBoundary → s.taskId = none ∧ s.data = none ∧ s.subflow = none
  known : ¬ s.kind.isBoundary → ∀ taskId, s.taskId = some taskId → (lookup taskId).isSome
  decodes : ¬ s.kind.isBoundary → ∀ j, s.draft lookup = some j → ∃ t, Task.codec.read j = .ok t
  carries : s.kind = .task ∨ s.subflow.isSome → s.taskId.isSome ∨ s.data.isSome

/-- What an error about a node says of it. -/
inductive Defect (lookup : Lookup) (s : NodeSpec) : BuildError → Prop
  | unexpected (hk : s.kind.isBoundary) (h : s.taskId.isSome ∨ s.data.isSome ∨ s.subflow.isSome) :
      Defect lookup s (.unexpectedTaskData s.id)
  | unknown {taskId : String} (hk : ¬ s.kind.isBoundary) (ht : s.taskId = some taskId)
      (h : lookup taskId = none) : Defect lookup s (.catalogLookup s.id taskId)
  | invalid {j : Json} {reason : ReadError} (hk : ¬ s.kind.isBoundary)
      (hj : s.draft lookup = some j) (h : Task.codec.read j = .error reason) :
      Defect lookup s (.invalidTaskData s.id reason.message)
  | missing (hk : ¬ s.kind.isBoundary) (ht : s.taskId = none) (hd : s.data = none)
      (h : s.kind = .task ∨ s.subflow.isSome) : Defect lookup s (.missingTaskData s.id)

theorem Defect.not_fits (h : s.Defect lookup e) : ¬ s.Fits lookup := by
  intro hs
  cases h with
  | unexpected hk h =>
    obtain ⟨ht, hd, hsub⟩ := hs.boundary hk
    simp [ht, hd, hsub] at h
  | unknown hk ht h => simpa [h] using hs.known hk _ ht
  | invalid hk hj h =>
    obtain ⟨t, ht⟩ := hs.decodes hk _ hj
    cases ht.symm.trans h
  | missing hk ht hd h => simpa [ht, hd] using hs.carries h

/-- The task that a draft is read as. -/
def taskOf (lookup : Lookup) (s : NodeSpec) : Option Task :=
  (s.draft lookup).bind fun j => (Task.codec.read j).toOption.map Task.normalized

theorem draft_eq_none (h : s.draft lookup = none) :
    (∃ taskId, s.taskId = some taskId ∧ lookup taskId = none) ∨
      s.taskId = none ∧ s.data = none := by
  unfold draft at h
  cases ht : s.taskId with
  | none => exact .inr ⟨rfl, by simpa [ht] using h⟩
  | some taskId => exact .inl ⟨taskId, rfl, by simpa [ht] using h⟩

theorem mergedTask_of_draft {j : Json} (h : s.draft lookup = some j) : s.mergedTask lookup =
    match Task.codec.read j with
    | .ok t => .ok (some t)
    | .error reason => .error (.invalidTaskData s.id reason.message) := by
  obtain ⟨id, kind, position, taskId, label, enabled, data, subflow⟩ := s
  cases taskId with
  | none =>
    cases data with
    | none => cases h
    | some data =>
      cases h
      rfl
  | some taskId =>
    simp only [draft] at h
    cases ht : lookup taskId with
    | none => simp [ht] at h
    | some t =>
      simp only [ht, Option.map_some, Option.some.injEq] at h
      subst h
      simp only [mergedTask, baseTask, ht]
      rfl

/-- The spec fits and gives the task of its draft, or it has a defect that is reported. -/
def Judged (lookup : Lookup) (s : NodeSpec) : Prop :=
  s.Fits lookup ∧ s.task lookup = .ok (s.taskOf lookup) ∨
    ∃ e, s.Defect lookup e ∧ s.task lookup = .error e

theorem judged_boundary (hk : s.kind.isBoundary) : s.Judged lookup := by
  by_cases hdata : s.taskId.isSome ∨ s.data.isSome ∨ s.subflow.isSome
  · refine .inr ⟨_, .unexpected hk hdata, ?_⟩
    simp [task, hk, hdata, or_assoc]
  · have hnone : s.taskId = none ∧ s.data = none ∧ s.subflow = none := by simpa using hdata
    obtain ⟨ht, hd, hs⟩ := hnone
    refine .inl ⟨⟨fun _ => ⟨ht, hd, hs⟩, absurd hk, absurd hk, ?_⟩, ?_⟩
    · rintro (htask | hsub)
      · simp [htask, NodeKind.isBoundary] at hk
      · simp [hs] at hsub
    · simp [task, hk, ht, hd, hs, taskOf, draft]

theorem judged_drafted {j : Json} (hk : ¬ s.kind.isBoundary) (hj : s.draft lookup = some j) :
    s.Judged lookup := by
  rw [Judged, task, if_neg hk, mergedTask_of_draft hj]
  cases hread : Task.codec.read j with
  | error reason => exact .inr ⟨_, .invalid hk hj hread, rfl⟩
  | ok t =>
    refine .inl ⟨⟨fun h => absurd h hk, fun _ taskId ht => ?_, fun _ j' hj' => ?_, fun _ => ?_⟩,
      ?_⟩
    · rw [Option.isSome_iff_ne_none]
      intro hl
      simp [draft, ht, hl] at hj
    · cases hj.symm.trans hj'
      exact ⟨t, hread⟩
    · by_contra hnone
      have hnone : s.taskId = none ∧ s.data = none := by simpa using hnone
      simp [draft, hnone] at hj
    · simp [taskOf, hj, hread, Except.toOption, bind, Except.bind, pure, Except.pure]

theorem judged_undrafted (hk : ¬ s.kind.isBoundary) (hj : s.draft lookup = none) :
    s.Judged lookup := by
  rw [Judged, task, if_neg hk]
  rcases draft_eq_none hj with ⟨taskId, ht, hl⟩ | ⟨ht, hd⟩
  · refine .inr ⟨_, .unknown hk ht hl, ?_⟩
    simp [mergedTask, baseTask, ht, hl, bind, Except.bind]
  · have hmerged : s.mergedTask lookup = .ok none := by
      simp [mergedTask, baseTask, ht, hd, bind, Except.bind, pure, Except.pure]
    by_cases hneed : s.kind = .task ∨ s.subflow.isSome
    · refine .inr ⟨_, .missing hk ht hd hneed, ?_⟩
      simp [hmerged, hneed, bind, Except.bind]
    · refine .inl ⟨⟨fun h => absurd h hk, ?_, ?_, fun h => absurd h hneed⟩, ?_⟩
      · intro _ taskId h
        cases ht.symm.trans h
      · intro _ j h
        cases hj.symm.trans h
      · simp [hmerged, hneed, taskOf, hj, bind, Except.bind, pure, Except.pure]

theorem judged (lookup : Lookup) (s : NodeSpec) : s.Judged lookup := by
  by_cases hk : s.kind.isBoundary
  · exact judged_boundary hk
  · cases hj : s.draft lookup with
    | some j => exact judged_drafted hk hj
    | none => exact judged_undrafted hk hj

theorem task_ok (h : s.task lookup = .ok t) : s.Fits lookup ∧ t = s.taskOf lookup := by
  rcases judged lookup s with ⟨hs, ht⟩ | ⟨e, -, he⟩
  · cases ht.symm.trans h
    exact ⟨hs, rfl⟩
  · cases he.symm.trans h

theorem task_error (h : s.task lookup = .error e) : s.Defect lookup e := by
  rcases judged lookup s with ⟨-, ht⟩ | ⟨e', hd, he⟩
  · cases ht.symm.trans h
  · cases he.symm.trans h
    exact hd

end NodeSpec

-- ---------------------------------------------------------------------------
-- Edges
-- ---------------------------------------------------------------------------

/-- Both ends of an edge spec are among the given ids. -/
def EdgeSpec.Within (ids : List String) (x : EdgeSpec) : Prop :=
  x.source ∈ ids ∧ x.target ∈ ids

/-- An edge that was built for a spec: a given id is kept. -/
structure EdgeSpec.Mirrors (x : EdgeSpec) (e : Edge) : Prop where
  id : ∀ id, x.id = some id → e.id = id
  source : e.source = x.source
  target : e.target = x.target
  label : e.label = x.label
  animated : e.animated = x.animated

theorem EdgeSpec.build_ok (h : build ids given built specs = .ok es) :
    (∀ x ∈ specs, x.Within ids) ∧ ∃ new, es = built ++ new ∧ List.Forall₂ Mirrors specs new := by
  induction specs generalizing built with
  | nil =>
    cases h
    exact ⟨nofun, [], (List.append_nil _).symm, .nil⟩
  | cons x specs ih =>
    simp only [build] at h
    split at h
    · cases h
    rename_i hs
    split at h
    · cases h
    rename_i ht
    obtain ⟨hwithin, new, rfl, hnew⟩ := ih h
    refine ⟨?_, _ :: new, by rw [List.append_assoc, List.singleton_append], .cons ?_ hnew⟩
    · intro y hy
      rcases List.mem_cons.mp hy with rfl | hy
      · exact ⟨by simpa using hs, by simpa using ht⟩
      · exact hwithin y hy
    · exact ⟨fun id hid => by simp [hid], rfl, rfl, rfl, rfl⟩

theorem EdgeSpec.build_error (h : build ids given built specs = .error e) :
    ∃ x ∈ specs, ∃ taken missing,
      e = .danglingEdge (x.id.getD (edgeId taken x.source x.target)) missing ∧
      (missing = x.source ∨ missing = x.target) ∧ missing ∉ ids := by
  induction specs generalizing built with
  | nil => cases h
  | cons x specs ih =>
    simp only [build] at h
    split at h
    · rename_i hs
      cases h
      exact ⟨x, List.mem_cons_self, _, _, rfl, .inl rfl, hs⟩
    split at h
    · rename_i ht
      cases h
      exact ⟨x, List.mem_cons_self, _, _, rfl, .inr rfl, ht⟩
    obtain ⟨y, hy, hdangling⟩ := ih h
    exact ⟨y, List.mem_cons_of_mem _ hy, hdangling⟩

-- ---------------------------------------------------------------------------
-- Levels
-- ---------------------------------------------------------------------------

namespace LevelSpec

def nodeIds (spec : LevelSpec) : List String := spec.nodes.map (·.id)

/-- `P` holds of a spec and of all specs inside it. -/
inductive Everywhere (P : LevelSpec → Prop) : LevelSpec → Prop
  | intro {spec : LevelSpec} : P spec →
      (∀ s ∈ spec.nodes, ∀ sub, s.subflow = some sub → Everywhere P sub) → Everywhere P spec

/-- `P` holds of a spec or of one inside it. -/
inductive Somewhere (P : LevelSpec → Prop) : LevelSpec → Prop
  | here {spec : LevelSpec} : P spec → Somewhere P spec
  | inside {spec : LevelSpec} {s : NodeSpec} {sub : LevelSpec} : s ∈ spec.nodes →
      s.subflow = some sub → Somewhere P sub → Somewhere P spec

theorem Somewhere.not_everywhere (hPQ : ∀ spec, P spec → ¬ Q spec) (h : spec.Somewhere P) :
    ¬ spec.Everywhere Q := by
  induction h with
  | here h => exact fun ⟨hq, _⟩ => hPQ _ h hq
  | inside hs hsub _ ih => exact fun ⟨_, hq⟩ => ih (hq _ hs _ hsub)

/-- A level of a spec that is well-formed on its own, whatever its subflows are. -/
structure Fits (lookup : Lookup) (spec : LevelSpec) : Prop where
  ids : spec.nodeIds.Nodup
  edges : ∀ x ∈ spec.edges, x.Within spec.nodeIds
  nodes : ∀ s ∈ spec.nodes, s.Fits lookup

/-- What an error says of a level of a spec. An edge without an id is named by one that is made for
it. -/
inductive Defect (lookup : Lookup) (spec : LevelSpec) : BuildError → Prop
  | duplicate {id : String} (h : List.Duplicate id spec.nodeIds) :
      Defect lookup spec (.duplicateNodeId id)
  | dangling {x : EdgeSpec} {missing : String} (taken : List String) (hx : x ∈ spec.edges)
      (hend : missing = x.source ∨ missing = x.target) (h : missing ∉ spec.nodeIds) :
      Defect lookup spec (.danglingEdge (x.id.getD (edgeId taken x.source x.target)) missing)
  | node {s : NodeSpec} {e : BuildError} (hs : s ∈ spec.nodes) (h : s.Defect lookup e) :
      Defect lookup spec e

theorem Defect.not_fits (h : spec.Defect lookup e) : ¬ spec.Fits lookup := by
  intro hfits
  cases h with
  | duplicate h => exact h.not_nodup hfits.ids
  | dangling taken hx hend h =>
    obtain ⟨hs, ht⟩ := hfits.edges _ hx
    rcases hend with rfl | rfl
    · exact h hs
    · exact h ht
  | node hs h => exact h.not_fits (hfits.nodes _ hs)

theorem buildSubflow_error {o : Option LevelSpec} (h : buildSubflow lookup o = .error e) :
    ∃ sub, o = some sub ∧ sub.build lookup = .error e := by
  cases o with
  | none => cases h
  | some sub =>
    refine ⟨sub, rfl, ?_⟩
    cases hb : sub.build lookup <;> simp_all [buildSubflow, Except.map]

theorem buildNodes_cons_error (h : buildNodes lookup seen (s :: ss) = .error e) :
    (s.id ∈ seen ∧ e = .duplicateNodeId s.id) ∨ s.Defect lookup e ∨
      (∃ sub, s.subflow = some sub ∧ sub.build lookup = .error e) ∨
      buildNodes lookup (s.id :: seen) ss = .error e := by
  obtain ⟨id, kind, position, taskId, label, enabled, data, subflow⟩ := s
  simp only [buildNodes] at h
  split at h
  · rename_i hseen
    cases h
    exact .inl ⟨hseen, rfl⟩
  refine .inr ?_
  generalize hs : NodeSpec.mk id kind position taskId label enabled data subflow = s at h ⊢
  cases htask : s.task lookup with
  | error e' =>
    rw [htask] at h
    cases h
    exact .inl (NodeSpec.task_error htask)
  | ok t =>
    refine .inr ?_
    rw [htask] at h
    cases hsub : buildSubflow lookup subflow with
    | error e' =>
      simp only [bind, Except.bind, hsub] at h
      cases h
      subst hs
      exact .inl (buildSubflow_error hsub)
    | ok sub =>
      cases hrest : buildNodes lookup (id :: seen) ss <;>
        simp only [bind, Except.bind, hsub, hrest] at h <;> cases h
      subst hs
      exact .inr hrest

theorem buildNodes_error (h : buildNodes lookup seen ss = .error e) :
    (∃ id, e = .duplicateNodeId id ∧
        (id ∈ seen ∧ id ∈ ss.map (·.id) ∨ List.Duplicate id (ss.map (·.id)))) ∨
      (∃ s ∈ ss, s.Defect lookup e) ∨
      ∃ s ∈ ss, ∃ sub, s.subflow = some sub ∧ sub.build lookup = .error e := by
  induction ss generalizing seen with
  | nil => cases h
  | cons s ss ih =>
    rcases buildNodes_cons_error h with ⟨hseen, rfl⟩ | hd | hsub | hrest
    · exact .inl ⟨s.id, rfl, .inl ⟨hseen, List.mem_cons_self⟩⟩
    · exact .inr (.inl ⟨s, List.mem_cons_self, hd⟩)
    · exact .inr (.inr ⟨s, List.mem_cons_self, hsub⟩)
    · rcases ih hrest with ⟨j, rfl, hj⟩ | ⟨s, hs, hd⟩ | ⟨s, hs, hd⟩
      · refine .inl ⟨j, rfl, ?_⟩
        rcases hj with ⟨hseen, hmem⟩ | hdup
        · rcases List.mem_cons.mp hseen with rfl | hseen
          · exact .inr (List.Mem.duplicate_cons_self hmem)
          · exact .inl ⟨hseen, List.mem_cons_of_mem _ hmem⟩
        · exact .inr (hdup.duplicate_cons _)
      · exact .inr (.inl ⟨s, List.mem_cons_of_mem _ hs, hd⟩)
      · exact .inr (.inr ⟨s, List.mem_cons_of_mem _ hs, hd⟩)

/-- An error of a build is about a defect of some level of the spec. -/
theorem build_error (h : spec.build lookup = .error e) :
    spec.Somewhere fun sub => sub.Defect lookup e := by
  induction spec using LevelSpec.induction generalizing e with
  | h spec ih =>
    obtain ⟨nodes, edges⟩ := spec
    simp only [build] at h
    cases hns : buildNodes lookup [] nodes with
    | error e' =>
      rw [hns] at h
      cases h
      rcases buildNodes_error hns with ⟨id, rfl, hid⟩ | ⟨s, hs, hd⟩ | ⟨s, hs, sub, hsub, hd⟩
      · exact .here (.duplicate (hid.resolve_left (by simp)))
      · exact .here (.node hs hd)
      · exact .inside hs hsub (ih s hs sub hsub hd)
    | ok ns =>
      rw [hns] at h
      cases hes : EdgeSpec.build (nodes.map (·.id)) (edges.filterMap (·.id)) [] edges with
      | error e' =>
        simp only [bind, Except.bind, hes] at h
        cases h
        obtain ⟨x, hx, taken, missing, rfl, hend, hmissing⟩ := EdgeSpec.build_error hes
        exact .here (.dangling taken hx hend hmissing)
      | ok es =>
        simp only [bind, Except.bind, hes] at h
        cases h

theorem build_fits (h : spec.build lookup = .ok l) : spec.Everywhere (Fits lookup) := by
  induction spec using LevelSpec.induction generalizing l with
  | h spec ih =>
    obtain ⟨nodes, edges⟩ := spec
    simp only [build, bind_ok] at h
    obtain ⟨ns, hns, es, hes, -⟩ := h
    obtain ⟨hbuilt, hnodup, -⟩ := buildNodes_ok hns
    have node : ∀ s ∈ nodes, ∃ n ∈ ns, Built lookup s n := fun s hs =>
      exists_of_forall₂ hbuilt.flip hs
    refine .intro ⟨hnodup, (EdgeSpec.build_ok hes).1, fun s hs => ?_⟩ fun s hs sub hsub => ?_
    · obtain ⟨n, -, task, _, htask, -, -⟩ := node s hs
      exact (NodeSpec.task_ok htask).1
    · obtain ⟨n, -, _, inner, -, hbuild, -⟩ := node s hs
      rcases buildSubflow_ok.mp hbuild with ⟨hnone, -⟩ | ⟨_, l, hs', -, hl⟩
      · cases hsub.symm.trans hnone
      · cases hsub.symm.trans hs'
        exact ih s hs sub hsub hl

/-- A spec can be built exactly if all its levels fit. -/
theorem build_iff_fits : (∃ l, spec.build lookup = .ok l) ↔ spec.Everywhere (Fits lookup) := by
  constructor
  · rintro ⟨l, h⟩
    exact build_fits h
  · intro hfits
    cases h : spec.build lookup with
    | ok l => exact ⟨l, rfl⟩
    | error e => exact absurd hfits ((build_error h).not_everywhere fun _ h => h.not_fits)

end LevelSpec

end Workflow

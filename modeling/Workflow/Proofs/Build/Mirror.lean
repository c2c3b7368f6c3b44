import Workflow.Proofs.Build.Accept
import Workflow.Proofs.Layout.Fill

/-!
# Built graphs mirror their specs

A graph that is built has the nodes and edges of its spec in their order, level by level. A layout
adds positions to it and takes none away. With the laws of acceptance this says of every spec
whether it can be built, what the graph is, and what the error is about.
-/

namespace Workflow

variable {lookup : Lookup} {s : NodeSpec} {n n' : Node} {spec : LevelSpec} {l l' : Level}
variable {laid : Bool} {w : WorkflowSpec} {g : Graph} {layout : Option Layout} {e : BuildError}

/-- A node that was built for a spec. It has a position that the spec does not give only if it was
laid out. -/
structure NodeSpec.Mirrors (lookup : Lookup) (laid : Bool) (s : NodeSpec) (n : Node) : Prop where
  id : n.id = s.id
  kind : n.kind = s.kind
  label : n.label = s.label
  position : ∀ p, s.position = some p → n.position = some p
  unplaced : laid = false → n.position = s.position
  task : n.data.map (·.task) = s.taskOf lookup
  data : ∀ d, n.data = some d →
    d.enabled = s.enabled.getD true ∧ d.combined = none ∧ d.combining = false
  subflow : n.subflow.isSome = s.subflow.isSome

inductive LevelSpec.Mirrors (lookup : Lookup) (laid : Bool) : LevelSpec → Level → Prop
  | intro {spec : LevelSpec} {l : Level} (length : l.nodes.length = spec.nodes.length)
      (nodes : ∀ (i : Nat) s n, spec.nodes[i]? = some s → l.nodes[i]? = some n →
        s.Mirrors lookup laid n)
      (edges : List.Forall₂ EdgeSpec.Mirrors spec.edges l.edges)
      (inside : ∀ (i : Nat) s n sub l', spec.nodes[i]? = some s → l.nodes[i]? = some n →
        s.subflow = some sub → n.subflow = some l' → Mirrors lookup laid sub l') :
      Mirrors lookup laid spec l

/-- A phase with the ids that its spec lists and that are known. -/
structure PhaseSpec.Mirrors (known : List String) (p : PhaseSpec) (ph : Phase) : Prop where
  id : ph.id = p.id
  name : ph.name = p.name
  color : ph.color = p.color
  nodeIds : ph.nodeIds = p.nodeIds.filter (· ∈ known)

structure WorkflowSpec.Mirrors (lookup : Lookup) (laid : Bool) (w : WorkflowSpec) (g : Graph) :
    Prop where
  levels : w.toLevelSpec.Mirrors lookup laid g.toLevel
  phases : List.Forall₂ (PhaseSpec.Mirrors w.toLevelSpec.nodeIds) w.phases g.phases

-- ---------------------------------------------------------------------------
-- What is built
-- ---------------------------------------------------------------------------

theorem NodeSpec.Fits.taskOf_isSome (h : s.Fits lookup) (hk : ¬ s.kind.isBoundary)
    (hs : s.kind = .task ∨ s.subflow.isSome) : (s.taskOf lookup).isSome := by
  cases hj : s.draft lookup with
  | some j =>
    obtain ⟨t, ht⟩ := h.decodes hk j hj
    simp [taskOf, hj, ht, Except.toOption]
  | none =>
    rcases draft_eq_none hj with ⟨taskId, ht, hl⟩ | ⟨ht, hd⟩
    · simpa [hl] using h.known hk taskId ht
    · simpa [ht, hd] using h.carries hs

theorem Built.mirrors (h : Built lookup s n) : s.Mirrors lookup false n := by
  obtain ⟨task, sub, htask, hsub, rfl⟩ := h
  obtain ⟨hfits, rfl⟩ := NodeSpec.task_ok htask
  refine ⟨rfl, rfl, rfl, fun _ h => h, fun _ => rfl, ?_, ?_, ?_⟩
  · simp [NodeSpec.toNode, Function.comp_def]
  · intro d hd
    obtain ⟨t, -, rfl⟩ := Option.map_eq_some_iff.mp hd
    exact ⟨rfl, rfl, rfl⟩
  · rcases LevelSpec.buildSubflow_ok.mp hsub with ⟨hs, rfl⟩ | ⟨inner, l, hs, rfl, -⟩
    · cases s.taskOf lookup <;> simp [NodeSpec.toNode, Node.subflow, hs]
    · have hk : ¬ s.kind.isBoundary := fun hk => by cases hs.symm.trans (hfits.boundary hk).2.2
      obtain ⟨t, ht⟩ := Option.isSome_iff_exists.mp (hfits.taskOf_isSome hk (.inr (by simp [hs])))
      simp [NodeSpec.toNode, Node.subflow, hs, ht]

theorem forall₂_getElem? {α β : Type} {R : α → β → Prop} {xs : List α} {ys : List β} {i : Nat}
    {x : α} {y : β} (h : List.Forall₂ R xs ys) (hx : xs[i]? = some x) (hy : ys[i]? = some y) :
    R x y :=
  List.forall₂_zip h (List.mem_of_getElem? (List.getElem?_zip_eq_some.mpr ⟨hx, hy⟩))

theorem LevelSpec.build_mirrors (h : spec.build lookup = .ok l) : spec.Mirrors lookup false l := by
  induction spec using LevelSpec.induction generalizing l with
  | h spec ih =>
    obtain ⟨nodes, edges⟩ := spec
    simp only [build, bind_ok] at h
    obtain ⟨ns, hns, es, hes, h⟩ := h
    cases h
    obtain ⟨hbuilt, -, -⟩ := buildNodes_ok hns
    obtain ⟨-, new, rfl, hnew⟩ := EdgeSpec.build_ok hes
    refine .intro hbuilt.length_eq.symm (fun i s n hs hn => ?_) hnew
      fun i s n sub l' hs hn hsub hl' => ?_
    · exact (forall₂_getElem? hbuilt hs hn).mirrors
    · obtain ⟨task, inner, -, hbuild, rfl⟩ := forall₂_getElem? hbuilt hs hn
      rcases buildSubflow_ok.mp hbuild with ⟨hnone, -⟩ | ⟨_, l, hs', rfl, hl⟩
      · cases hsub.symm.trans hnone
      · cases hsub.symm.trans hs'
        cases task with
        | none => cases hl'
        | some t =>
          cases hl'
          exact ih s (List.mem_of_getElem? hs) sub hsub hl

theorem LevelSpec.Mirrors.nodeIds (h : spec.Mirrors lookup laid l) : l.nodeIds = spec.nodeIds := by
  obtain ⟨length, nodes, -, -⟩ := h
  have hlen : l.nodeIds.length = spec.nodeIds.length := by
    simpa [Level.nodeIds, LevelSpec.nodeIds] using length
  refine List.ext_getElem hlen fun i hi hj => ?_
  simp only [Level.nodeIds, LevelSpec.nodeIds, List.length_map, List.getElem_map] at hi hj ⊢
  exact (nodes i _ _ (List.getElem?_eq_getElem hj) (List.getElem?_eq_getElem hi)).id

-- ---------------------------------------------------------------------------
-- After a layout
-- ---------------------------------------------------------------------------

theorem NodeSpec.Mirrors.filled (h : s.Mirrors lookup false n) (hn : n.Filled n') :
    s.Mirrors lookup true n' := by
  have hdata : n'.data.map TaskData.unplaced = n.data.map TaskData.unplaced := by
    rw [← Node.unplaced_data, hn.same, Node.unplaced_data]
  refine ⟨?_, ?_, ?_, fun p hp => hn.kept p (h.position p hp), nofun, ?_, fun d hd => ?_, ?_⟩
  · exact (congrArg Node.id hn.same).trans h.id
  · exact (congrArg Node.kind hn.same).trans h.kind
  · exact (congrArg Node.label hn.same).trans h.label
  · have htask := congrArg (Option.map (·.task)) hdata
    simp only [Option.map_map, Function.comp_def, TaskData.unplaced_task] at htask
    rw [htask, h.task]
  · rw [hd] at hdata
    obtain ⟨was, hwas, hsame⟩ := Option.map_eq_some_iff.mp hdata.symm
    obtain ⟨henabled, hcombined, hcombining⟩ := h.data was hwas
    exact ⟨(congrArg TaskData.enabled hsame).symm.trans henabled,
      (congrArg TaskData.combined hsame).symm.trans hcombined,
      (congrArg TaskData.combining hsame).symm.trans hcombining⟩
  · have hsub := congrArg (fun n => n.subflow.isSome) hn.same
    simp only [Node.unplaced_subflow, Option.isSome_map] at hsub
    rw [hsub, h.subflow]

theorem LevelSpec.Mirrors.fills (h : spec.Mirrors lookup false l) (hl : l.Fills l') :
    spec.Mirrors lookup true l' := by
  induction h generalizing l' with
  | @intro spec l length nodes edges _ ih =>
    obtain ⟨hedges, hlen, hnodes, hinside⟩ := hl
    have node : ∀ (i : Nat) n', l'.nodes[i]? = some n' → ∃ n, l.nodes[i]? = some n := by
      intro i n' hn'
      obtain ⟨hi, -⟩ := List.getElem?_eq_some_iff.mp hn'
      exact ⟨_, List.getElem?_eq_getElem (hlen ▸ hi)⟩
    refine .intro (hlen.trans length) (fun i s n' hs hn' => ?_) (hedges ▸ edges)
      fun i s n' sub m' hs hn' hsub hm' => ?_
    · obtain ⟨n, hn⟩ := node i n' hn'
      exact (nodes i s n hs hn).filled (hnodes i n n' hn hn')
    · obtain ⟨n, hn⟩ := node i n' hn'
      have hsome : n.subflow.isSome := by rw [(nodes i s n hs hn).subflow, hsub, Option.isSome_some]
      obtain ⟨m, hm⟩ := Option.isSome_iff_exists.mp hsome
      exact ih i s n sub m hs hn hsub hm (hinside i n n' m m' hn hn' hm hm')

-- ---------------------------------------------------------------------------
-- Graphs
-- ---------------------------------------------------------------------------

namespace WorkflowSpec

theorem build_ok : w.build lookup = .ok g ↔
    w.toLevelSpec.build lookup = .ok g.toLevel ∧ g.phases = w.phases.map (·.build g.nodeIds) := by
  obtain ⟨l, phases⟩ := g
  simp only [build, bind_ok, pure, Except.pure, Except.ok.injEq, Graph.mk.injEq]
  constructor
  · rintro ⟨_, hl, rfl, rfl⟩
    exact ⟨hl, rfl⟩
  · rintro ⟨hl, rfl⟩
    exact ⟨l, hl, rfl, rfl⟩

theorem build_error (h : w.build lookup = .error e) : w.toLevelSpec.build lookup = .error e := by
  simp only [build] at h
  cases hl : w.toLevelSpec.build lookup with
  | error e' =>
    rw [hl] at h
    cases h
    rfl
  | ok l =>
    rw [hl] at h
    cases h

theorem build_mirrors (h : w.build lookup = .ok g) : w.Mirrors lookup false g := by
  obtain ⟨hl, hphases⟩ := build_ok.mp h
  have hmirrors := LevelSpec.build_mirrors hl
  refine ⟨hmirrors, ?_⟩
  rw [hphases, List.forall₂_map_right_iff, List.forall₂_same]
  exact fun p _ => ⟨rfl, rfl, rfl, by rw [← hmirrors.nodeIds]; rfl⟩

theorem buildWith_mirrors (h : w.buildWith lookup layout = .ok (some g)) :
    w.Mirrors lookup layout.isSome g := by
  simp only [buildWith, bind_ok] at h
  obtain ⟨built, hbuilt, h⟩ := h
  have hmirrors := build_mirrors hbuilt
  cases layout with
  | none =>
    cases h
    exact hmirrors
  | some c =>
    obtain ⟨⟨g', k⟩, hg', h⟩ := Option.map_eq_some_iff.mp (Except.ok.inj h)
    cases h
    obtain ⟨⟨l, k⟩, hl, h⟩ := Option.map_eq_some_iff.mp hg'
    cases h
    exact ⟨hmirrors.levels.fills (Layout.apply_fills hl), hmirrors.phases⟩

theorem buildWith_error (h : w.buildWith lookup layout = .error e) : w.build lookup = .error e := by
  simp only [buildWith] at h
  cases hb : w.build lookup with
  | error e' =>
    rw [hb] at h
    cases h
    rfl
  | ok g =>
    rw [hb] at h
    cases layout <;> cases h

/-- A spec is built exactly if all its levels fit, and the graph mirrors it and is valid; an error
is about a defect of some level. A layout is expected to find a slot for every node. -/
theorem buildWith_exact (lookup : Lookup) (layout : Option Layout) (w : WorkflowSpec)
    (hends : ∀ c ∈ layout, ∀ g, w.build lookup = .ok g → (c.applyGraph g).isSome) :
    ((∃ g, w.buildWith lookup layout = .ok (some g)) ↔
      w.toLevelSpec.Everywhere (LevelSpec.Fits lookup)) ∧
    (∀ g, w.buildWith lookup layout = .ok (some g) →
      w.Mirrors lookup layout.isSome g ∧ g.validate = .ok ()) ∧
    ∀ e, w.buildWith lookup layout = .error e →
      w.toLevelSpec.Somewhere fun spec => spec.Defect lookup e := by
  refine ⟨?_, fun g h => ⟨buildWith_mirrors h, (buildWith_sound h).validate⟩, fun e h =>
    LevelSpec.build_error (build_error (buildWith_error h))⟩
  rw [← LevelSpec.build_iff_fits]
  constructor
  · rintro ⟨g, h⟩
    obtain ⟨built, hbuilt, -⟩ := bind_ok.mp h
    exact ⟨_, (build_ok.mp hbuilt).1⟩
  · rintro ⟨l, hl⟩
    obtain ⟨g, hg⟩ : ∃ g, w.build lookup = .ok g :=
      ⟨{ l with phases := w.phases.map (·.build l.nodeIds) }, build_ok.mpr ⟨hl, rfl⟩⟩
    cases layout with
    | none => exact ⟨g, bind_ok.mpr ⟨g, hg, rfl⟩⟩
    | some c =>
      obtain ⟨⟨g', k⟩, hplaced⟩ := Option.isSome_iff_exists.mp (hends c rfl g hg)
      refine ⟨g', bind_ok.mpr ⟨g, hg, ?_⟩⟩
      simp only [hplaced]
      rfl

/-- A node of the subflow has a task of its own, and one node has a position. -/
def nestedSpec : WorkflowSpec where
  nodes := [
    { id := "in", kind := .input, position := some ⟨0, 0⟩ },
    { id := "a", kind := .task, taskId := some "t1", enabled := some false
      subflow := some {
        nodes := [
          { id := "x", kind := .decision },
          { id := "y", kind := .task, data := some (.obj [("name", .str "Inner")]) }]
        edges := [{ id := some "xy", source := "x", target := "y" }] } }]
  edges := [{ source := "in", target := "a" }]
  phases := [{ id := "p", name := "All", nodeIds := ["a", "gone"] }]

def alphaOnly : Lookup := fun id =>
  if id = "t1" then
    some { id := "t1", name := "Alpha", config := { tools := ["x", "x"] } }
  else none

theorem buildWith_exact_nested :
    (∀ c ∈ some ({} : Layout), ∀ g, nestedSpec.build alphaOnly = .ok g → (c.applyGraph g).isSome) ∧
      ∃ g, nestedSpec.buildWith alphaOnly (some {}) = .ok (some g) ∧
        nestedSpec.Mirrors alphaOnly true g ∧ g.validate = .ok () := by
  have hbuild : nestedSpec.build alphaOnly = .ok _ := rfl
  have hends : ∀ c ∈ some ({} : Layout), ∀ g, nestedSpec.build alphaOnly = .ok g →
      (c.applyGraph g).isSome := by
    rintro c ⟨⟩ g hg
    cases hbuild.symm.trans hg
    decide +kernel
  obtain ⟨haccepts, hmirrors, -⟩ := buildWith_exact alphaOnly (some {}) nestedSpec hends
  obtain ⟨g, hg⟩ := haccepts.mpr (LevelSpec.build_iff_fits.mp ⟨_, (build_ok.mp hbuild).1⟩)
  exact ⟨hends, g, hg, hmirrors g hg⟩

end WorkflowSpec

end Workflow

import Mathlib.Algebra.Group.Nat.Defs
import Workflow.Proofs.Build.Accept
import Workflow.Proofs.Sound.Session

/-!
# Edge ids stay distinct

A build gives an edge without an id one that no edge before it has and none of its level is given.
After that an edge is only added by connecting two nodes, under an id that is free; every other edit
keeps the ids of edges or leaves some out, at every depth.
-/

namespace Workflow

/-- No two edges of a level have the same id. -/
def Level.Apart (l : Level) : Prop := l.edgeIds.Nodup

/-- No two edges of a level of a spec are given the same id. -/
def LevelSpec.Apart (spec : LevelSpec) : Prop := (spec.edges.filterMap (·.id)).Nodup

instance (spec : LevelSpec) : Decidable spec.Apart := inferInstanceAs (Decidable (List.Nodup _))

variable {σ : Type} {l l' sub view : Level} {n n' : Node} {ns : List Node} {es built : List Edge}
variable {id source target : String} {lookup : Lookup} {layout : Option Layout} {w : WorkflowSpec}
variable {g : Graph} {d : Desk σ} {c : Command σ} {stored : Option Level} {f : Node → Node}

-- ---------------------------------------------------------------------------
-- Built levels
-- ---------------------------------------------------------------------------

/-- The ids of the edges that are built, and those that are still to be given, stay distinct. -/
theorem EdgeSpec.build_apart {ids given : List String} {specs : List EdgeSpec}
    (h : build ids given built specs = .ok es) (hgiven : specs.filterMap (·.id) ⊆ given)
    (hb : (built.map (·.id) ++ specs.filterMap (·.id)).Nodup) : (es.map (·.id)).Nodup := by
  induction specs generalizing built with
  | nil =>
    cases h
    simpa using hb
  | cons s specs ih =>
    simp only [build] at h
    split at h
    · cases h
    split at h
    · cases h
    cases hid : s.id with
    | some id =>
      simp only [hid, Option.getD_some, List.filterMap_cons_some hid] at h hgiven hb
      exact ih h (List.subset_of_cons_subset hgiven) (by simpa using hb)
    | none =>
      simp only [hid, Option.getD_none, List.filterMap_cons_none hid] at h hgiven hb
      refine ih h hgiven ?_
      have hfree : edgeId (built.map (·.id) ++ given) s.source s.target ∉
          built.map (·.id) ++ specs.filterMap (·.id) := by
        intro hmem
        have hmem := (List.mem_append.mp hmem).imp_right fun hmem => hgiven hmem
        exact edgeId_free (List.mem_append.mpr hmem)
      rw [List.map_append, List.append_assoc]
      exact (List.perm_middle.nodup_iff).mpr (List.nodup_cons.mpr ⟨hfree, hb⟩)

theorem LevelSpec.build_apart {spec : LevelSpec} (hs : spec.Everywhere Apart)
    (h : spec.build lookup = .ok l) : l.Everywhere Level.Apart := by
  induction hs generalizing l with
  | @intro spec hspec _ ih =>
    obtain ⟨nodes, edges⟩ := spec
    simp only [build, bind_ok] at h
    obtain ⟨ns, hns, es, hes, h⟩ := h
    cases h
    obtain ⟨hbuilt, -, -⟩ := buildNodes_ok hns
    refine .intro (EdgeSpec.build_apart hes (fun _ h => h) hspec) fun n hn sub hsub => ?_
    obtain ⟨s, hs, task, inner, -, hinner, rfl⟩ := exists_of_forall₂ hbuilt hn
    cases task with
    | none => cases hsub
    | some task =>
      rcases buildSubflow_ok.mp hinner with ⟨-, rfl⟩ | ⟨spec, _, hspec, rfl, hl⟩
      · cases hsub
      · cases hsub
        exact ih s hs spec hspec hl

theorem Layout.apply_apart {c : Layout} {k : Nat} (hl : l.Everywhere Level.Apart)
    (h : c.apply l = some (l', k)) : l'.Everywhere Level.Apart := by
  refine hl.of_unplaced (fun l l' hsame hapart => ?_) (apply_unplaced h).symm
  have hedges : l.edges = l'.edges := by rw [← Level.unplaced_edges, hsame, Level.unplaced_edges]
  rwa [Level.Apart, Level.edgeIds, ← hedges]

theorem WorkflowSpec.buildWith_apart (hw : w.toLevelSpec.Everywhere LevelSpec.Apart)
    (h : w.buildWith lookup layout = .ok (some g)) : g.toLevel.Everywhere Level.Apart := by
  simp only [buildWith, build, bind_ok] at h
  obtain ⟨_, ⟨l, hl, ⟨⟩⟩, h⟩ := h
  have hbuilt := LevelSpec.build_apart hw hl
  cases layout with
  | none =>
    cases h
    exact hbuilt
  | some c =>
    obtain ⟨⟨placed, k⟩, hplaced, rfl⟩ := Option.map_eq_some_iff.mp (Except.ok.inj h)
    obtain ⟨⟨l', k⟩, hl', hplaced⟩ := Option.map_eq_some_iff.mp hplaced
    cases hplaced
    exact Layout.apply_apart hbuilt hl'

-- ---------------------------------------------------------------------------
-- Edits that bring no edges
-- ---------------------------------------------------------------------------

namespace Level

/-- All edge ids and all subflows of a level are those of another one. -/
structure Inherits (l' l : Level) : Prop where
  edges : l'.edgeIds.Sublist l.edgeIds
  inside : ∀ n' ∈ l'.nodes, ∀ sub, n'.subflow = some sub → ∃ n ∈ l.nodes, n.subflow = some sub

theorem Inherits.apart (h : l'.Inherits l) (hl : l.Everywhere Apart) : l'.Everywhere Apart := by
  refine .intro (hl.here.sublist h.edges) fun n' hn' sub hs => ?_
  obtain ⟨n, hn, hs⟩ := h.inside n' hn' sub hs
  exact hl.inside hn hs

theorem Inherits.refl (l : Level) : l.Inherits l :=
  ⟨.refl _, fun n hn _ hs => ⟨n, hn, hs⟩⟩

theorem Inherits.trans {l'' : Level} (h : l''.Inherits l') (h' : l'.Inherits l) : l''.Inherits l := by
  refine ⟨h.edges.trans h'.edges, fun n hn sub hs => ?_⟩
  obtain ⟨n', hn', hs'⟩ := h.inside n hn sub hs
  exact h'.inside n' hn' sub hs'

theorem inherits_restrict (hns : ns ⊆ l.nodes) (hes : es.Sublist l.edges) :
    (⟨ns, es⟩ : Level).Inherits l :=
  ⟨hes.map _, fun n hn _ hs => ⟨n, hns hn, hs⟩⟩

theorem inherits_insert (hn : n.subflow = none) (hns : ns ⊆ n :: l.nodes) :
    (⟨ns, l.edges⟩ : Level).Inherits l := by
  refine ⟨.refl _, fun m hm sub hs => ?_⟩
  rcases List.mem_cons.mp (hns hm) with rfl | hm
  · cases hn.symm.trans hs
  · exact ⟨m, hm, hs⟩

theorem inherits_editingView (stored : Option Level) :
    (editingView stored).Inherits (stored.getD {}) := by
  have hdrop : (stored.getD {}).dropSurplus.Inherits (stored.getD {}) :=
    inherits_restrict (keepFirst_sublist.trans keepFirst_sublist).subset List.filter_sublist
  have hentry : ∀ l : Level, l.addEntry.Inherits l := fun l => by
    unfold addEntry
    split
    · exact .refl l
    · exact inherits_insert (n := Boundary.entry.toNode l.nodeIds) rfl fun _ h => h
  have hexit : ∀ l : Level, l.addExit.Inherits l := fun l => by
    unfold addExit
    split
    · exact .refl l
    · exact inherits_insert (n := Boundary.exit.toNode l.nodeIds) rfl List.perm_append_comm.subset
  exact ((hexit _).trans (hentry _)).trans hdrop

theorem inherits_remove (id : String) (l : Level) : (l.remove id).level.Inherits l := by
  unfold remove
  split
  · exact .refl l
  · exact inherits_restrict List.eraseP_subset List.filter_sublist

end Level

namespace Merge

variable {t : Task} {ts : List Task}

theorem inherits_setFlag (flag : Bool) (id : String) (l : Level) : (setFlag flag id l).Inherits l := by
  refine ⟨.refl _, fun m hm sub hs => ?_⟩
  rcases Level.mem_mapFirst hm with hm | ⟨n, hn, -, rfl⟩
  · exact ⟨m, hm, hs⟩
  · exact ⟨n, hn, by cases hd : n.data <;> simp_all [Node.subflow]⟩

theorem takeOver_subflow : (takeOver id t ts n).subflow = n.subflow := by
  unfold takeOver
  split
  · cases hd : n.data <;> simp [Node.subflow, hd]
  · rfl

/-- A redirected edge keeps its id. -/
theorem inherits_quotient {a b : String} : (quotient a b t ts l).Inherits l := by
  refine ⟨?_, fun m hm sub hs => ?_⟩
  · rw [Level.edgeIds, quotient, redirected, redirectAll_edges, List.map_map]
    exact kept_sublist.map (·.id)
  · obtain ⟨n, hn, rfl⟩ := List.mem_map.mp hm
    exact ⟨n, List.mem_of_mem_filter hn, takeOver_subflow.symm.trans hs⟩

theorem inherits_stage {r : Resolved} (h : stage r l = .ok l') : l'.Inherits l := by
  obtain ⟨-, -, rfl, -⟩ := stage_ok.mp h
  exact inherits_quotient

end Merge

/-- Every command but the one that connects nodes brings no edge and no subflow. -/
theorem Command.inherits_edit (hc : ∀ source target, c ≠ .connect source target) :
    (c.edit d l).level.Inherits l := by
  cases c with
  | addTask task position =>
    exact Level.inherits_insert (n := .ofTask _ task position) rfl List.perm_append_comm.subset
  | connect source target => exact absurd rfl (hc source target)
  | remove id => exact Level.inherits_remove id l
  | start target dropped =>
    simp only [edit, Edited.map_level]
    cases hr : (Merge.start target dropped l).result with
    | error e =>
      rw [Merge.level_start_refused hr]
      exact .refl l
    | ok p =>
      rw [Merge.level_start (Merge.start_ok.mp hr)]
      exact Merge.inherits_setFlag ..
  | resolve c k =>
    simp only [edit]
    split <;> exact .refl l
  | commit c k =>
    simp only [edit]
    split
    · rename_i r _
      rw [Edited.map_level]
      rcases hr : (Merge.commit c.append r d.store l).result with ⟨e | o, s⟩
      · rw [(Merge.commit_error hr).1]
        exact Merge.inherits_setFlag ..
      · exact Merge.inherits_stage (Merge.commit_ok hr).1
    · exact .refl l
  | abort k =>
    simp only [edit]
    split
    · exact Merge.inherits_setFlag ..
    · exact .refl l
  | combine c target dropped =>
    simp only [edit, Edited.map_level]
    rcases Merge.combine_cases c target dropped d.tokens d.store l with
      ⟨r, o, -, -, -, hstage, -⟩ | ⟨-, hlevel, -⟩
    · exact Merge.inherits_stage hstage
    · rw [hlevel]
      exact .refl l

-- ---------------------------------------------------------------------------
-- Connecting nodes
-- ---------------------------------------------------------------------------

namespace Level

/-- `id` is the id of an edge of `l'` that joins two nodes, and `l'` is `l` with this edge, under an
id that is free, unless there was one that joins them. -/
structure Connected (l : Level) (source target id : String) (l' : Level) : Prop where
  joined : ∃ e ∈ l'.edges, e.joins source target ∧ e.id = id
  kept : (∃ e ∈ l.edges, e.joins source target) → l' = l
  added : (∀ e ∈ l.edges, ¬ e.joins source target) →
    ∃ e, e.id = id ∧ id ∉ l.edgeIds ∧ l' = { l with edges := l.edges ++ [e] }

theorem connect_connected (hs : source ∈ l.nodeIds) (ht : target ∈ l.nodeIds) :
    ∃ id, (l.connect source target).result = .ok id ∧
      l.Connected source target id (l.connect source target).level := by
  simp only [connect, contains_iff.mpr hs, contains_iff.mpr ht, Bool.not_true, Bool.false_eq_true,
    if_false]
  cases hf : l.edges.find? (·.joins source target) with
  | some e =>
    have hmem := List.mem_of_find?_eq_some hf
    have hjoins := List.find?_some hf
    exact ⟨e.id, rfl, ⟨e, hmem, hjoins, rfl⟩, fun _ => rfl, fun h => absurd hjoins (h e hmem)⟩
  | none =>
    have hnone := List.find?_eq_none.mp hf
    refine ⟨_, rfl, ⟨_, List.mem_append_right _ (List.mem_singleton.mpr rfl), ?_, rfl⟩, ?_, ?_⟩
    · simp [Edge.joins]
    · rintro ⟨e, he, hjoins⟩
      exact absurd hjoins (hnone e he)
    · exact fun _ => ⟨_, rfl, edgeId_free, rfl⟩

theorem connect_refused (h : source ∉ l.nodeIds ∨ target ∉ l.nodeIds) :
    ∃ id, (id = source ∨ id = target) ∧ id ∉ l.nodeIds ∧
      l.connect source target = .refused l (.nodeNotFound id) := by
  by_cases hs : source ∈ l.nodeIds
  · have ht := h.resolve_left (not_not_intro hs)
    have hcontains : l.contains target = false := by simpa [← contains_iff] using ht
    exact ⟨target, .inr rfl, ht, by simp [connect, contains_iff.mpr hs, hcontains]⟩
  · have hcontains : l.contains source = false := by simpa [← contains_iff] using hs
    exact ⟨source, .inl rfl, hs, by simp [connect, hcontains]⟩

theorem Connected.apart (h : l.Connected source target id l') (hl : l.Everywhere Apart) :
    l'.Everywhere Apart := by
  by_cases hold : ∃ e ∈ l.edges, e.joins source target
  · rwa [h.kept hold]
  · obtain ⟨e, rfl, hfree, rfl⟩ := h.added (by simpa using hold)
    refine .intro ?_ fun n hn sub hs => hl.inside hn hs
    have hids : ({ l with edges := l.edges ++ [e] } : Level).edgeIds = l.edgeIds ++ [e.id] := by
      simp [edgeIds]
    rw [Apart, hids]
    exact (List.perm_append_singleton _ _).nodup_iff.mpr (List.nodup_cons.mpr ⟨hfree, hl.here⟩)

theorem connect_apart (hl : l.Everywhere Apart) :
    (l.connect source target).level.Everywhere Apart := by
  by_cases h : source ∈ l.nodeIds ∧ target ∈ l.nodeIds
  · obtain ⟨id, -, hconnected⟩ := connect_connected h.1 h.2
    exact hconnected.apart hl
  · obtain ⟨id, -, -, hrefused⟩ := connect_refused (not_and_or.mp h)
    rw [hrefused]
    exact hl

/-- Nodes may change if their subflows keep the ids of their edges distinct. -/
theorem mapNode_apart (hl : l.Everywhere Apart)
    (hf : ∀ n ∈ l.nodes, n.id = id → ∀ sub, (f n).subflow = some sub → sub.Everywhere Apart) :
    (l.mapNode id f).Everywhere Apart := by
  refine .intro hl.here fun m hm sub hs => ?_
  rcases mem_mapFirst hm with hm | ⟨n, hn, hid, rfl⟩
  · exact hl.inside hm hs
  · exact hf n hn hid sub hs

theorem setSubflow_apart (hl : l.Everywhere Apart) (hsub : sub.Everywhere Apart) :
    (l.mapNode id (·.setSubflow sub)).Everywhere Apart := by
  refine mapNode_apart hl fun n _ _ sub' hs => ?_
  cases hd : n.data with
  | none => simp [Node.setSubflow, Node.subflow, hd] at hs
  | some d =>
    obtain rfl : sub = sub' := by simpa [Node.setSubflow, Node.subflow, hd] using hs
    exact hsub

theorem attach_apart (hv : view.Everywhere Apart) (hl : l.Everywhere Apart) :
    (attach id view l).level.Everywhere Apart := by
  unfold attach
  split
  · exact hl
  split
  · exact hl
  · rename_i n' hn'
    refine mapNode_apart hl fun _ _ _ sub hs => ?_
    obtain ⟨-, d, -, rfl⟩ := Node.attach_ok hn'
    simp only [Node.subflow, Option.bind_some] at hs
    split at hs
    · cases hs
    · cases hs
      exact (inherits_restrict (List.filter_subset_self _) List.filter_sublist).apart hv

end Level

-- ---------------------------------------------------------------------------
-- Sessions
-- ---------------------------------------------------------------------------

namespace Session

variable {s : Session σ} {a : Action σ} {place : Place} {path : Path}

structure Apart (s : Session σ) : Prop where
  graph : s.graph.Everywhere Level.Apart
  views : ∀ view ∈ s.views, view.Everywhere Level.Apart

theorem edit_apart (hs : s.Apart) (a : Action σ) (hl : l.Everywhere Level.Apart) :
    (a.edit s l).level.Everywhere Level.Apart := by
  cases a with
  | command c =>
    by_cases hc : ∃ source target, c = .connect source target
    · obtain ⟨source, target, rfl⟩ := hc
      exact Level.connect_apart hl
    · exact (c.inherits_edit fun source target h => hc ⟨source, target, h⟩).apart hl
  | removeInterior id =>
    simp only [Action.edit, Level.removeInterior, Edited.map_level]
    split
    · exact hl
    · exact (Level.inherits_remove id l).apart hl
  | layout c =>
    simp only [Action.edit]
    split
    · rename_i h
      exact Layout.apply_apart hl h
    · exact hl
  | attach id k =>
    simp only [Action.edit]
    split
    · rename_i view hk
      exact Level.attach_apart (hs.views view (List.mem_of_getElem? hk)) hl
    · exact hl

theorem Apart.edit (hs : s.Apart) {f : Level → Edited (Desk σ)}
    (hf : ∀ l, l.Everywhere Level.Apart → (f l).level.Everywhere Level.Apart) (place : Place)
    (path : Path) : (s.edit f place path).Apart := by
  have replaced : ∀ {l m : Level}, l.Everywhere Level.Apart → l.Reaches path m →
      (l.replaceAt path (f m).level).Everywhere Level.Apart := fun hl hm =>
    hl.replaceAt Level.setSubflow_apart (hf _ (hl.of_reaches hm)) hm
  cases place with
  | graph =>
    simp only [Session.edit]
    split
    · rename_i h
      obtain ⟨m, hm, -, hg⟩ := Graph.editAt_ok h
      exact ⟨hg ▸ replaced hs.graph hm, hs.views⟩
    · exact hs
  | view k =>
    simp only [Session.edit]
    split
    · rename_i view hk
      split
      · rename_i h
        obtain ⟨m, hm, -, rfl⟩ := Level.editAt_ok h
        refine ⟨hs.graph, fun v hv => ?_⟩
        rcases List.mem_or_eq_of_mem_set hv with hv | rfl
        · exact hs.views v hv
        · exact replaced (hs.views view (List.mem_of_getElem? hk)) hm
      · exact hs
    · exact hs

theorem levelAt_apart (hs : s.Apart) (h : s.levelAt place path = some l) :
    l.Everywhere Level.Apart := by
  cases place with
  | graph => exact hs.graph.of_reaches (Graph.levelAt_ok.mp (toOption_eq_some.mp h))
  | view k =>
    obtain ⟨view, hk, h⟩ := Option.bind_eq_some_iff.mp h
    exact (hs.views view (List.mem_of_getElem? hk)).of_reaches
      (Level.resolve_ok.mp (toOption_eq_some.mp h))

theorem viewOf_apart (hs : s.Apart) (h : s.viewOf place path id = some view) :
    view.Everywhere Level.Apart := by
  obtain ⟨l, hl, h⟩ := Option.bind_eq_some_iff.mp h
  obtain ⟨n, hn, h⟩ := Option.bind_eq_some_iff.mp h
  have h := toOption_eq_some.mp h
  unfold Node.openSubflow at h
  split at h
  · cases h
    refine (Level.inherits_editingView n.subflow).apart ?_
    cases hsub : n.subflow with
    | none => exact .intro .nil nofun
    | some sub => exact (levelAt_apart hs hl).inside (Level.node?_mem hn).1 hsub
  · cases h

theorem Apart.step (hs : s.Apart) (m : Move σ) : (s.step m).Apart := by
  cases m with
  | edit place path a => exact hs.edit (fun _ => edit_apart hs a) place path
  | openView place path id =>
    refine ⟨hs.graph, fun view hv => ?_⟩
    rcases List.mem_append.mp hv with hv | hv
    · exact hs.views view hv
    · exact viewOf_apart hs (Option.mem_toList.mp hv)

theorem Apart.run (hs : s.Apart) (moves : List (Move σ)) : (s.run moves).Apart := by
  induction moves generalizing s with
  | nil => exact hs
  | cons m moves ih => exact ih (hs.step m)

/-- The id of an edge is made of the ids of its ends. It is free: plain if that is free, else with
the first number from 2 that makes it free, which fits into 31 bits unless too many ids are taken.
Where the ids given on each level of a spec are distinct, so are all edge ids at every depth of the
graph that is built, and of it and all views after any moves. Connecting two nodes of a level answers
with the id of an edge that joins them, and adds one only if there was none. -/
theorem edge_ids_distinct :
    (∀ (taken : List String) (source target : String),
      edgeId taken source target ∉ taken ∧
      (source ++ "->" ++ target ∉ taken → edgeId taken source target = source ++ "->" ++ target) ∧
      (source ++ "->" ++ target ∈ taken → ∃ n, 2 ≤ n ∧
        edgeId taken source target = source ++ "->" ++ target ++ "#" ++ toString n ∧
        (∀ m, 2 ≤ m → m < n → source ++ "->" ++ target ++ "#" ++ toString m ∈ taken) ∧
        (taken.toFinset.card < 2 ^ 31 - 2 → n < 2 ^ 31 - 1))) ∧
    (∀ {σ : Type} (lookup : Lookup) (layout : Option Layout) (w : WorkflowSpec) (g : Graph)
        (tokens : TokenSupply) (store : σ) (moves : List (Move σ)),
      w.toLevelSpec.Everywhere LevelSpec.Apart → w.buildWith lookup layout = .ok (some g) →
      g.Everywhere Level.Apart ∧ ((start g tokens store).run moves).Apart) ∧
    ∀ (l : Level) (source target : String),
      (source ∈ l.nodeIds → target ∈ l.nodeIds → ∃ id,
        (l.connect source target).result = .ok id ∧
        l.Connected source target id (l.connect source target).level) ∧
      (source ∉ l.nodeIds ∨ target ∉ l.nodeIds → ∃ id, (id = source ∨ id = target) ∧
        id ∉ l.nodeIds ∧ l.connect source target = .refused l (.nodeNotFound id)) := by
  refine ⟨fun taken source target => ⟨edgeId_free, fun h => if_neg h, fun h => ?_⟩, ?_,
    fun l source target => ⟨Level.connect_connected, Level.connect_refused⟩⟩
  · obtain ⟨n, hn, heq, -, hbelow⟩ := freeId_numbered "#" h
    refine ⟨n, hn, heq, hbelow, fun hfew => ?_⟩
    have hle := numbered_le (by decide) h hbelow
    omega
  · intro σ lookup layout w g tokens store moves hw hbuild
    have hg := WorkflowSpec.buildWith_apart hw hbuild
    have hstart : (start g tokens store).Apart := ⟨hg, nofun⟩
    exact ⟨hg, hstart.run moves⟩

/-- The first edge has to keep clear of ids that are given after it. -/
def crossedSpec : WorkflowSpec where
  nodes := [{ id := "a", kind := .decision }, { id := "a->b", kind := .decision },
    { id := "b", kind := .task, taskId := some "t1" }, { id := "c", kind := .decision },
    { id := "b->c", kind := .task, taskId := some "t1"
      subflow := some {
        nodes := [{ id := "x", kind := .decision }, { id := "y", kind := .decision }]
        edges := [{ source := "x", target := "y" }, { source := "x", target := "y" }] } }]
  edges := [{ source := "c", target := "b" }, { source := "a", target := "b->c" },
    { id := some "c->b", source := "b", target := "c" },
    { id := some "c->b#2", source := "a", target := "c" }]

/-- A view is kept in another node than it was opened of. The merge redirects an edge, whose id is in
the way of one between other nodes. -/
def crossingMoves (setting : Merge.Setting MemoryStore) : List (Move MemoryStore) :=
  [.openView .graph [] "b->c", .edit (.view 0) [] (.command (.connect "y" "x")),
    .edit .graph [] (.attach "b" 0), .edit .graph [] (.command (.combine setting "b" "b->c")),
    .edit .graph [] (.command (.connect "a" "b")), .edit .graph [] (.command (.connect "a->b" "c"))]

theorem edge_ids_distinct_crossed :
    ∃ (g : Graph) (setting : Merge.Setting MemoryStore),
      crossedSpec.toLevelSpec.Everywhere LevelSpec.Apart ∧
      crossedSpec.buildWith oneTask none = .ok (some g) ∧
      g.edgeIds = ["c->b#3", "a->b->c", "c->b", "c->b#2"] ∧ g.Everywhere Level.Apart ∧
      ((start g numerals {}).run (crossingMoves setting)).graph.edgeIds =
        ["c->b#3", "a->b->c", "c->b", "c->b#2", "a->b->c#2"] ∧
      ((start g numerals {}).run (crossingMoves setting)).Apart := by
  have hw : crossedSpec.toLevelSpec.Everywhere LevelSpec.Apart := by
    refine .intro (by decide) fun s hs sub hsub => ?_
    simp only [crossedSpec, List.mem_cons, List.not_mem_nil, or_false] at hs
    rcases hs with rfl | rfl | rfl | rfl | rfl <;> cases hsub
    refine .intro .nil fun s hs sub hsub => ?_
    simp only [List.mem_cons, List.not_mem_nil, or_false] at hs
    rcases hs with rfl | rfl <;> cases hsub
  obtain ⟨-, hsession, -⟩ := edge_ids_distinct
  obtain ⟨hg, hrun⟩ := hsession oneTask none crossedSpec _ numerals ({} : MemoryStore)
    (crossingMoves { append := MemoryStore.put }) hw rfl
  exact ⟨_, { append := MemoryStore.put }, hw, rfl, rfl, hg, rfl, hrun⟩

end Session

end Workflow

import Workflow.Proofs.Graph.Route

/-!
# Edits at a depth

An edit at a path replaces the level there. Everything that can be seen of the graph afterwards, at
whatever path, is what was there before or what the edit has made.
-/

namespace Workflow

variable {α : Type} {f : Level → Edited α} {l l' m new sub sub' : Level} {n : Node} {depth : Nat}
variable {id j : String} {path other rest taken : Path} {ns : List Node} {g g' : Graph}

namespace Level

theorem Reaches.resolve_append (h : l.Reaches path m) :
    l.resolve depth (path ++ rest) = m.resolve (depth + path.length) rest := by
  induction h generalizing depth with
  | here => rfl
  | @down l sub m n id path hn hs _ ih =>
    rw [List.length_cons, Nat.add_comm path.length, ← Nat.add_assoc, ← ih]
    simp [Level.resolve, enter_ok.mpr ⟨n, hn, hs⟩, bind, Except.bind]

/-- A path can go through a node whose subflow was put there. -/
theorem Reaches.down_setSubflow (hn : l.node? id = some n) (hs : n.subflow = some sub)
    (h : new.Reaches path m) : (l.mapNode id (·.setSubflow new)).Reaches (id :: path) m := by
  refine .down (n := n.setSubflow new) ?_ (Node.setSubflow_subflow hs new) h
  rw [node?_mapNode (f := (·.setSubflow new)) fun _ h => h, if_pos rfl, hn, Option.map_some]

/-- At the path itself there is the new level. -/
theorem Reaches.replaced (h : l.Reaches path m) (new : Level) :
    (l.replaceAt path new).Reaches path new := by
  induction h with
  | here => exact .here
  | @down l sub m n id path hn hs _ ih =>
    rw [replaceAt_cons hn hs]
    exact .down_setSubflow hn hs ih

theorem enter_mapNode_ne {g : Node → Node} (hg : ∀ n, n.id = id → (g n).id = id) (hj : j ≠ id) :
    (l.mapNode id g).enter depth j = l.enter depth j := by
  rw [enter, enter, node?_mapNode hg, if_neg hj]

/-- A path that parts from the path of the replacement leads where it led before, or fails as it
did. -/
theorem Reaches.resolve_aside (h : l.Reaches path m) (new : Level) (hother : ¬ path <+: other)
    (hpath : ¬ other <+: path) :
    (l.replaceAt path new).resolve depth other = l.resolve depth other := by
  induction h generalizing depth other with
  | here => exact absurd List.nil_prefix hother
  | @down l sub m n id path hn hs _ ih =>
    cases other with
    | nil => exact absurd List.nil_prefix hpath
    | cons j other =>
      rw [replaceAt_cons hn hs]
      by_cases hj : j = id
      · subst hj
        simp only [List.cons_prefix_cons, true_and] at hother hpath
        have hold : l.Reaches [j] sub := .down hn hs .here
        have hnew : (l.mapNode j (·.setSubflow (sub.replaceAt path new))).Reaches [j]
            (sub.replaceAt path new) := .down_setSubflow hn hs .here
        rw [← List.singleton_append, hold.resolve_append, hnew.resolve_append]
        exact ih hother hpath
      · rw [Level.resolve, Level.resolve,
          enter_mapNode_ne (g := (·.setSubflow (sub.replaceAt path new))) (fun _ h => h) hj]

/-- Two levels that differ in one thing only: the first node of an id has the subflow `sub'` instead
of `sub`. -/
def DiffersBehind (l : Level) (id : String) (sub sub' l' : Level) : Prop :=
  l'.edges = l.edges ∧ ∃ before n after, l.nodes = before ++ n :: after ∧
    l'.nodes = before ++ n.setSubflow sub' :: after ∧
    (∀ x ∈ before, x.id ≠ id) ∧ n.id = id ∧ n.subflow = some sub

theorem mapFirst_split {g : Node → Node} (hn : ns.find? (·.id == id) = some n) :
    ∃ before after, ns = before ++ n :: after ∧ mapFirst id g ns = before ++ g n :: after ∧
      ∀ x ∈ before, x.id ≠ id := by
  induction ns with
  | nil => cases hn
  | cons x ns ih =>
    rw [List.find?_cons] at hn
    by_cases hx : x.id = id
    · simp only [hx, BEq.rfl, Option.some.injEq] at hn
      subst hn
      exact ⟨[], ns, rfl, by simp [mapFirst, hx], nofun⟩
    · simp only [beq_eq_false_iff_ne.mpr hx] at hn
      obtain ⟨before, after, rfl, hmap, hbefore⟩ := ih hn
      refine ⟨x :: before, after, rfl, by simp [mapFirst, hx, hmap], fun y hy => ?_⟩
      rcases List.mem_cons.mp hy with rfl | hy
      · exact hx
      · exact hbefore y hy

theorem differsBehind_setSubflow (hn : l.node? id = some n) (hs : n.subflow = some sub)
    (sub' : Level) :
    l.DiffersBehind id sub sub' (l.mapNode id (·.setSubflow sub')) := by
  obtain ⟨before, after, hnodes, hmap, hbefore⟩ := mapFirst_split (g := (·.setSubflow sub')) hn
  exact ⟨rfl, before, n, after, hnodes, hmap, hbefore, (node?_mem hn).2, hs⟩

/-- On the way to the replacement each level differs behind the next step only. -/
theorem Reaches.above (h : l.Reaches (taken ++ id :: rest) m) (new : Level) :
    ∃ at' at'' sub sub', l.Reaches taken at' ∧ l.Reaches (taken ++ [id]) sub ∧
      (l.replaceAt (taken ++ id :: rest) new).Reaches taken at'' ∧
      (l.replaceAt (taken ++ id :: rest) new).Reaches (taken ++ [id]) sub' ∧
      at'.DiffersBehind id sub sub' at'' := by
  induction taken generalizing l with
  | nil =>
    cases h with
    | @down _ sub _ n _ _ hn hs h =>
      have hdiffers := differsBehind_setSubflow hn hs (sub.replaceAt rest new)
      simp only [List.nil_append, replaceAt_cons hn hs]
      exact ⟨l, _, sub, sub.replaceAt rest new, .here, .down hn hs .here, .here,
        .down_setSubflow hn hs .here, hdiffers⟩
  | cons j taken ih =>
    cases h with
    | @down _ inner _ n _ _ hn hs h =>
      obtain ⟨at', at'', sub, sub', hat, hsub, hat', hsub', hdiffers⟩ := ih h
      simp only [List.cons_append, replaceAt_cons hn hs]
      exact ⟨at', at'', sub, sub', .down hn hs hat, .down hn hs hsub, .down_setSubflow hn hs hat',
        .down_setSubflow hn hs hsub', hdiffers⟩

theorem setSubflow_valid (hl : l.Everywhere Valid) (hsub : sub.Everywhere Valid) :
    (l.mapNode id (·.setSubflow sub)).Everywhere Valid := by
  have hids : (l.mapNode id (·.setSubflow sub)).nodeIds = l.nodeIds := nodeIds_mapNode fun _ h => h
  refine .intro ⟨hids ▸ hl.here.ids, ?_, hids ▸ hl.here.edges⟩ ?_
  · intro n hn hk
    rcases mem_mapFirst hn with hn | ⟨was, hwas, -, rfl⟩
    · exact hl.here.tasks n hn hk
    · simpa [Node.setSubflow, Node.carriesTask] using hl.here.tasks was hwas hk
  · intro n hn s hs
    rcases mem_mapFirst hn with hn | ⟨n, hn, -, rfl⟩
    · exact hl.inside hn hs
    · obtain ⟨x, hx, hs⟩ := Option.bind_eq_some_iff.mp hs
      obtain ⟨d, -, rfl⟩ := Option.map_eq_some_iff.mp hx
      cases hs
      exact hsub

end Level

namespace Graph

/-- `g'` is `g` with the level at a path replaced by `new`. -/
structure ChangedAt (g : Graph) (path : Path) (new : Level) (g' : Graph) : Prop where
  here : g'.levelAt path = .ok new
  below : ∀ rest, g'.levelAt (path ++ rest) = new.resolve path.length rest
  aside : ∀ other, ¬ path <+: other → ¬ other <+: path → g'.levelAt other = g.levelAt other
  above : ∀ taken id rest, path = taken ++ id :: rest → ∃ l l' sub sub',
    g.levelAt taken = .ok l ∧ g.levelAt (taken ++ [id]) = .ok sub ∧
    g'.levelAt taken = .ok l' ∧ g'.levelAt (taken ++ [id]) = .ok sub' ∧
    l.DiffersBehind id sub sub' l'
  phases : path ≠ [] → g'.phases = g.phases
  valid : g.validate = .ok () → new.validate = .ok () → g'.validate = .ok ()

theorem changedAt_replaceAt (h : g.toLevel.Reaches path m)
    (hg : g'.toLevel = g.toLevel.replaceAt path new) (hp : path ≠ [] → g'.phases = g.phases) :
    g.ChangedAt path new g' where
  here := by
    rw [levelAt_ok, hg]
    exact h.replaced new
  below rest := by
    have hnew := h.replaced new
    rw [levelAt, hg, hnew.resolve_append, Nat.zero_add]
  aside other hother hpath := by
    rw [levelAt, hg, h.resolve_aside new hother hpath, levelAt]
  above taken id rest heq := by
    subst heq
    obtain ⟨l, l', sub, sub', hl, hsub, hl', hsub', hdiffers⟩ := h.above new
    rw [← hg] at hl' hsub'
    exact ⟨l, l', sub, sub', levelAt_ok.mpr hl, levelAt_ok.mpr hsub, levelAt_ok.mpr hl',
      levelAt_ok.mpr hsub', hdiffers⟩
  phases := hp
  valid hv hnew := by
    rw [hg, Level.validate_ok]
    exact (Level.validate_ok.mp hv).replaceAt Level.setSubflow_valid (Level.validate_ok.mp hnew) h

/-- An edit at a path that leads to a level replaces that level by the edited one and touches
nothing else; the phases belong to the root and stay, unless the root itself is edited. -/
theorem editAt_changes_one_level (h : g.levelAt path = .ok l) (f : Level → Edited α) :
    ∃ g', g.editAt f path = .ok ((f l).result, g') ∧ g.ChangedAt path (f l).level g' := by
  have hl := levelAt_ok.mp h
  cases path with
  | nil =>
    cases hl
    exact ⟨_, editAt_root f, changedAt_replaceAt .here rfl fun h => absurd rfl h⟩
  | cons id path => exact ⟨_, editAt_inside hl f, changedAt_replaceAt hl rfl fun _ => rfl⟩

/-- The node `x` of the subflow of `a` has the id of a root node that a phase lists. -/
def sharedIds : Graph where
  nodes := [
    { id := "a", kind := .task, data := some {
      task := { id := "t1", name := "Alpha" }
      subflow := some {
        nodes := [{ id := "x", kind := .decision }, { id := "y", kind := .decision }]
        edges := [{ id := "x->y", source := "x", target := "y" }] } } },
    { id := "x", kind := .decision }]
  edges := [{ id := "a->x", source := "a", target := "x" }]
  phases := [{ id := "p", name := "All", nodeIds := ["a", "x"] }]

theorem editAt_changes_one_level_shared :
    ∃ l g', sharedIds.levelAt ["a"] = .ok l ∧
      sharedIds.editAt (Level.remove "x") ["a"] = .ok ((l.remove "x").result, g') ∧
      sharedIds.ChangedAt ["a"] (l.remove "x").level g' ∧
      (l.remove "x").level.nodeIds = ["y"] ∧ g'.phases = sharedIds.phases := by
  have hl : sharedIds.levelAt ["a"] = .ok _ := rfl
  obtain ⟨g', hg', hchanged⟩ := editAt_changes_one_level hl (Level.remove "x")
  exact ⟨_, g', hl, hg', hchanged, by decide, hchanged.phases (by decide)⟩

end Graph

end Workflow

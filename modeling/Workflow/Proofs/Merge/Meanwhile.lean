import Mathlib.Logic.Relation
import Workflow.Proofs.Merge.Quotient

/-!
# Edits while a merge is pending

A pending merge holds copies of both nodes, but a commit reads from them only what it compares with
the level. So whatever is edited meanwhile, as long as both nodes keep their tasks and their flags,
the commit does what it would do had the merge begun only now.
-/

namespace Workflow

variable {g g' : Graph} {l l' l'' : Level} {n : Node} {ns : List Node} {es : List Edge}
variable {a b id j : String} {x y z : TaskData}

/-- Data that differs at most in what a merge does not look at. -/
structure TaskData.Alike (x y : TaskData) : Prop where
  task : x.task = y.task
  combined : x.combined = y.combined
  combining : x.combining = y.combining

namespace TaskData.Alike

theorem refl (x : TaskData) : x.Alike x := ⟨rfl, rfl, rfl⟩

theorem trans (h : x.Alike y) (h' : y.Alike z) : x.Alike z :=
  ⟨h.task.trans h'.task, h.combined.trans h'.combined, h.combining.trans h'.combining⟩

theorem sourceTasks (h : x.Alike y) : x.sourceTasks = y.sourceTasks := by
  simp only [TaskData.sourceTasks, h.task, h.combined]

end TaskData.Alike

namespace Level

/-- If the node of the id holds something in `l`, it holds the like in `l'`. -/
def Keeps (l l' : Level) (id : String) : Prop :=
  ∀ x ∈ l.data? id, ∃ y ∈ l'.data? id, y.Alike x

theorem Keeps.of_eq (h : l'.data? id = l.data? id) : l.Keeps l' id :=
  fun x hx => ⟨x, h ▸ hx, .refl x⟩

theorem Keeps.trans (h : l.Keeps l' id) (h' : l'.Keeps l'' id) : l.Keeps l'' id := by
  intro x hx
  obtain ⟨y, hy, hyx⟩ := h x hx
  obtain ⟨z, hz, hzy⟩ := h' y hy
  exact ⟨z, hz, hzy.trans hyx⟩

theorem keeps_append : (⟨ns, es⟩ : Level).Keeps ⟨ns ++ [n], es⟩ id := by
  intro x hx
  refine ⟨x, ?_, .refl x⟩
  obtain ⟨m, hm, hd⟩ := data?_eq_some.mp hx
  rw [node?] at hm
  exact data?_eq_some.mpr ⟨m, by simp [node?, List.find?_append, hm], hd⟩

theorem find?_eraseFirst (h : j ≠ id) (ns : List Node) :
    (eraseFirst id ns).find? (·.id == j) = ns.find? (·.id == j) := by
  induction ns with
  | nil => rfl
  | cons n ns ih =>
    unfold eraseFirst at ih ⊢
    by_cases hn : n.id = id
    · simp [hn, h.symm]
    · simp [hn, List.find?_cons, ih]

theorem keeps_remove (h : j ≠ id) : l.Keeps (l.remove id).level j := by
  unfold remove
  split
  · exact .of_eq rfl
  · exact .of_eq (by simp only [data?, node?, find?_eraseFirst h])

theorem keeps_change {c : Node.Change} (h : j = id → c.task = none ∧ c.combined = none) :
    l.Keeps (l.change id c).level j := by
  intro x hx
  have hdata : (l.change id c).level.data? j = if j = id then (l.data? id).map fun d =>
      { d with
        task := c.task.getD d.task
        enabled := c.enabled.getD d.enabled
        combined := c.combined.getD d.combined
        subflow := c.subflow.getD d.subflow } else l.data? j :=
    data?_mapNode (fun _ => rfl) fun _ => rfl
  rw [hdata]
  split
  · rename_i hj
    obtain ⟨ht, hc⟩ := h hj
    subst hj
    exact ⟨_, Option.mem_map_of_mem _ hx, by simp [ht], by simp [hc], rfl⟩
  · exact ⟨x, hx, .refl x⟩

theorem keeps_setFlag {flag : Bool} (h : j ≠ id) : l.Keeps (Merge.setFlag flag id l) j :=
  .of_eq (by rw [Merge.data?_setFlag, if_neg h])

end Level

-- ---------------------------------------------------------------------------
-- Edits
-- ---------------------------------------------------------------------------

/-- An edit that leaves the nodes `a` and `b` with their tasks and flags. -/
inductive Revision (a b : String) (g : Graph) : Graph → Prop
  | insert (n : Node) : Revision a b g (g.edit (Level.insertNode n)).2
  | remove {id : String} : id ≠ a → id ≠ b → Revision a b g (g.edit (Level.remove id)).2
  /-- Connects and disconnects nodes, also `a` and `b`. -/
  | rewire (edges : List Edge) : Revision a b g { g with edges }
  | regroup (phases : List Phase) : Revision a b g { g with phases }
  /-- Moves and labels any node, and changes whether it is enabled and its subflow. -/
  | change (id : String) (c : Node.Change) :
    (id = a ∨ id = b → c.task = none ∧ c.combined = none) →
      Revision a b g (g.edit (Level.change id c)).2
  | start {target dropped : String} : target ≠ a → target ≠ b →
    Revision a b g (g.edit (Merge.start target dropped)).2
  | abort (p : Merge.Pending) : p.target ≠ a → p.target ≠ b →
    Revision a b g (g.edit (Merge.abort p)).2
  | commit {σ : Type} (append : Task → σ → Except StoreError Bool × σ) (r : Merge.Resolved) (s : σ) :
    (∀ id, id = r.target ∨ id = r.dropped → id ≠ a ∧ id ≠ b) →
      Revision a b g (g.edit (Merge.commit append r s)).2

theorem Merge.keeps_start (h : j ≠ a) : l.Keeps (start a b l).level j := by
  cases hr : (start a b l).result with
  | error e => exact .of_eq (by rw [level_start_refused hr])
  | ok p =>
    rw [level_start (start_ok.mp hr)]
    exact Level.keeps_setFlag h

theorem Merge.keeps_commit {σ : Type} {append : Task → σ → Except StoreError Bool × σ}
    {r : Resolved} {s : σ} (ht : j ≠ r.target) (hd : j ≠ r.dropped) :
    l.Keeps (commit append r s l).level j := by
  rcases hr : (commit append r s l).result with ⟨e | o, s'⟩
  · obtain ⟨hlevel, -⟩ := commit_error hr
    rw [hlevel]
    exact Level.keeps_setFlag ht
  · obtain ⟨hstage, -⟩ := commit_ok hr
    obtain ⟨-, -, hlevel, -⟩ := stage_ok.mp hstage
    exact .of_eq (by rw [hlevel, data?_quotient, if_neg hd, if_neg ht])

theorem Revision.keeps (h : Revision a b g g') (hj : j = a ∨ j = b) : g.toLevel.Keeps g'.toLevel j := by
  cases h with
  | insert n => exact Level.keeps_append
  | @remove id ha hb => exact Level.keeps_remove (by rintro rfl; rcases hj with rfl | rfl <;> contradiction)
  | rewire | regroup => exact .of_eq rfl
  | change id c hc => exact Level.keeps_change fun hid => hc (hid ▸ hj)
  | @start target dropped ha hb =>
    exact Merge.keeps_start (by rintro rfl; rcases hj with rfl | rfl <;> contradiction)
  | abort p ha hb =>
    exact Level.keeps_setFlag (by rintro rfl; rcases hj with rfl | rfl <;> contradiction)
  | commit append r s hne =>
    have apart : ∀ id, id = r.target ∨ id = r.dropped → j ≠ id := by
      rintro id hid rfl
      obtain ⟨ha, hb⟩ := hne j hid
      exact hj.elim ha hb
    exact Merge.keeps_commit (apart _ (.inl rfl)) (apart _ (.inr rfl))

theorem keeps_of_revisions (h : Relation.ReflTransGen (Revision a b) g g') (hj : j = a ∨ j = b) :
    g.toLevel.Keeps g'.toLevel j := by
  induction h with
  | refl => exact .of_eq rfl
  | tail _ hr ih => exact ih.trans (hr.keeps hj)

-- ---------------------------------------------------------------------------
-- Beginning anew
-- ---------------------------------------------------------------------------

namespace Merge

variable {σ : Type} {append : Task → σ → Except StoreError Bool × σ} {s : σ}
variable {p q : Pending} {r : Resolved}

/-- Two beginnings of one merge, of which the later one found the nodes with the same tasks. -/
structure Pending.Renewed (p q : Pending) : Prop where
  target : q.target = p.target
  dropped : q.dropped = p.dropped
  sources : q.sources = p.sources
  targetData : q.targetData.task = p.targetData.task ∧ q.targetData.combined = p.targetData.combined
  droppedData :
    q.droppedData.task = p.droppedData.task ∧ q.droppedData.combined = p.droppedData.combined

theorem commit_renewed (h : r.toPending.Renewed q) :
    commit append { q with task := r.task } s l = commit append r s l := by
  have unchanged_eq : ∀ id (x y : TaskData), x.task = y.task ∧ x.combined = y.combined →
      unchanged l id x = unchanged l id y := by
    rintro id x y ⟨ht, hc⟩
    simp only [unchanged, ht, hc]
  have hstage : stage { q with task := r.task } l = stage r l := by
    simp only [stage, h.target, h.dropped, h.sources, unchanged_eq _ _ _ h.targetData,
      unchanged_eq _ _ _ h.droppedData]
  simp only [commit, hstage, fail, h.target, h.dropped]

/-- Where the nodes of a begun merge have kept their tasks and flags, it can begin anew as soon as
the flag is cleared, and then the level is what it was. -/
theorem Begun.renew (h : Begun a b l p) (ha : (start a b l).level.Keeps l' a)
    (hb : (start a b l).level.Keeps l' b) :
    ∃ q, Begun a b (setFlag false a l') q ∧ p.Renewed q ∧ setFlag true a (setFlag false a l') = l' := by
  rw [level_start h] at ha hb
  obtain ⟨x, hx, hxa⟩ := ha (flagged true p.targetData) <| by
    rw [data?_setFlag, if_pos rfl, h.targetData]
    rfl
  obtain ⟨y, hy, hyb⟩ := hb p.droppedData <| by
    rw [data?_setFlag, if_neg h.ne.symm, h.droppedData]
    rfl
  have hsources : Merge.sources (flagged false x) y = p.sources := by
    rw [h.sources_eq, ← hyb.sourceTasks]
    exact congrArg (· ++ y.sourceTasks) hxa.sourceTasks
  let ts := Merge.sources (flagged false x) y
  refine ⟨⟨a, b, flagged false x, y, ts, Merge.config x.task y.task ts⟩, ?_, ?_, ?_⟩
  · refine ⟨rfl, rfl, h.ne, ?_, ?_, rfl, hyb.combining.trans h.droppedFree, rfl, rfl⟩
    · rw [data?_setFlag, if_pos rfl, hx]
      rfl
    · rw [data?_setFlag, if_neg h.ne.symm]
      exact hy
  · exact ⟨h.target.symm, h.dropped.symm, hsources, ⟨hxa.task, hxa.combined⟩,
      ⟨hyb.task, hyb.combined⟩⟩
  · exact setFlag_setFlag hx hxa.combining

/-- A merge that has begun on a graph is committed on a later one in which its nodes have kept their
tasks and flags. It ends as if the flag were cleared, the merge begun anew and committed with the
same task: what it took down at its beginning does not show. -/
theorem commit_begun_anew {g₀ g₁ g : Graph} (hbegun : g₀.edit (start a b) = (.ok r.toPending, g₁))
    (ha : g₁.toLevel.Keeps g.toLevel a) (hb : g₁.toLevel.Keeps g.toLevel b)
    (append : Task → σ → Except StoreError Bool × σ) (s : σ) :
    ∃ q g₂, (g.edit (abort r.toPending)).2.edit (start a b) = (.ok q, g₂) ∧
      g₂.edit (commit append { q with task := r.task } s) = g.edit (commit append r s) := by
  obtain ⟨hp, hlevel, -⟩ := edit_eq hbegun
  have hbegun := start_ok.mp hp
  rw [← hlevel] at ha hb
  obtain ⟨q, hq, hrenewed, hsame⟩ := hbegun.renew ha hb
  refine ⟨q, g, ?_, ?_⟩
  · -- Clearing the flag and beginning anew gives back the graph that is there.
    have hlevel : (start a b (setFlag false a g.toLevel)).level = g.toLevel :=
      (level_start hq).trans hsame
    simp only [Graph.edit, abort, hbegun.target, start_ok.mpr hq, hlevel, departure_start]
  · simp only [Graph.edit, commit_renewed hrenewed]

/-- The sample with its merge begun. -/
def begunSample : Graph := (sample.edit (start "a" "b")).2

/-- Meanwhile `c` has gone, a node has come and is connected, and `a` is disabled and has got a
subflow. -/
def revisedSample : Graph :=
  let subflow : Level := { nodes := [.ofTask "x" { id := "t4", name := "Inner" } none] }
  let node : Node := .ofTask "d" { id := "t5", name := "Delta" } none
  let edge : Edge := { id := "7", source := "d", target := "b" }
  let g := ((begunSample.edit (Level.remove "c")).2.edit (Level.insertNode node)).2
  ({ g with edges := g.edges ++ [edge], phases := [] }.edit
    (Level.change "a" { enabled := some false, subflow := some (some subflow) })).2

theorem commit_begun_anew_revised :
    sample.edit (start "a" "b") = (.ok sampleMerge.toPending, begunSample) ∧
      Relation.ReflTransGen (Revision "a" "b") begunSample revisedSample ∧
      begunSample.toLevel.Keeps revisedSample.toLevel "a" ∧
      begunSample.toLevel.Keeps revisedSample.toLevel "b" ∧
      (∃ q g, (revisedSample.edit (abort sampleMerge.toPending)).2.edit (start "a" "b") = (.ok q, g) ∧
        g.edit (commit MemoryStore.put { q with task := sampleMerge.task } {}) =
          revisedSample.edit (commit MemoryStore.put sampleMerge {})) ∧
      (revisedSample.edit (commit MemoryStore.put sampleMerge {})).2.nodeIds = ["a", "d"] := by
  have hbegun : sample.edit (start "a" "b") = (.ok sampleMerge.toPending, begunSample) := rfl
  have hrevised : Relation.ReflTransGen (Revision "a" "b") begunSample revisedSample := by
    refine .tail (.tail (.tail (.tail (.single (.remove ?_ ?_)) (.insert _)) (.rewire _)) (.regroup _))
      (.change "a" _ fun _ => ?_)
    · decide
    · decide
    · exact ⟨rfl, rfl⟩
  have ha := keeps_of_revisions hrevised (.inl rfl)
  have hb := keeps_of_revisions hrevised (.inr rfl)
  exact ⟨hbegun, hrevised, ha, hb, commit_begun_anew hbegun ha hb MemoryStore.put {}, rfl⟩

end Merge

end Workflow

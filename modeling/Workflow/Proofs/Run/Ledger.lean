import Workflow.Proofs.Run.Command
import Workflow.Proofs.Run.Overlap

/-!
# No task is lost or merged twice

The tasks that a level stands for are kept like a ledger: a command posts what it brings and takes,
and leaves the others as they are. This holds in every run, however merges overlap, and of two merges
that are pending together and share a node one at most succeeds.
-/

namespace Workflow

namespace Posting

def brings : Posting → List Task
  | brought _ task => [task]
  | _ => []

def takes : Posting → List Task
  | taken n => n.sourceTasks
  | _ => []

end Posting

variable {σ : Type} {d : Desk σ} {l l' : Level} {dep : Option Departure} {e : Posting}
variable {id j : String} {n : Node} {p : Merge.Pending} {r : Merge.Resolved}

-- ---------------------------------------------------------------------------
-- One command
-- ---------------------------------------------------------------------------

theorem Effect.sourceTasks (he : Effect d l l' dep e) (hd : l.nodeIds.Nodup)
    (hready : ∀ r, d.Knows l r → Merge.stage r l = .ok l' → ∃ x y, Merge.Ready l r x y) :
    (l'.sourceTasks ++ e.takes).Perm (l.sourceTasks ++ e.brings) := by
  cases he with
  | kept => exact .refl _
  | added id task position =>
    simp [Level.sourceTasks, Node.sourceTasks, Node.ofTask, Posting.takes, Posting.brings,
      TaskData.sourceTasks]
  | connected e hw => exact .refl _
  | @removed id n hn =>
    obtain ⟨hmem, rfl⟩ := Level.node?_mem hn
    have hperm := (Level.perm_filter_ne hd hmem).flatMap_right Node.sourceTasks
    simp only [Level.sourceTasks, Posting.takes, Posting.brings, Level.eraseFirst_eq_filter hd,
      List.append_nil]
    exact List.perm_append_comm.trans hperm.symm
  | flagged flag id =>
    have hmap : (Merge.setFlag flag id l).nodes.map Node.sourceTasks = l.nodes.map Node.sourceTasks :=
      Level.map_mapFirst fun n _ => by
        cases hn : n.data with
        | none => simp [Node.sourceTasks, hn]
        | some x => simp only [Node.sourceTasks, Node.mapData_data, hn]; rfl
    simp only [Level.sourceTasks, List.flatMap_def, hmap, Posting.takes, Posting.brings]
    exact .refl _
  | merged hk hs =>
    obtain ⟨x, y, hr⟩ := hready _ hk hs
    simpa [Posting.takes, Posting.brings] using hr.sourceTasks hd hs

theorem Effect.grows (he : Effect d l l' dep e) (hd : l.nodeIds.Nodup)
    (hready : ∀ r, d.Knows l r → Merge.stage r l = .ok l' → ∃ x y, Merge.Ready l r x y)
    (hfresh : ∀ id task, e = .brought id task → id ≠ j) : l.Grows l' j := by
  cases he with
  | kept => exact Level.grows_of_eq rfl
  | added id task position => exact Level.grows_of_eq (Level.data?_append (hfresh _ _ rfl))
  | connected e hw => exact Level.grows_of_eq rfl
  | @removed id n hn =>
    by_cases h : j = id
    · intro y hy
      rw [Level.data?_eraseFirst hd, if_pos h] at hy
      cases hy
    · refine Level.grows_of_eq ?_
      rw [Level.data?_eraseFirst hd, if_neg h]
  | flagged flag id =>
    intro y hy
    rw [Merge.data?_setFlag] at hy
    split at hy
    · rename_i h
      subst h
      obtain ⟨x, hx, rfl⟩ := Option.map_eq_some_iff.mp hy
      exact ⟨x, hx, .inl rfl⟩
    · exact ⟨y, hy, .refl y⟩
  | merged hk hs =>
    obtain ⟨x, y, hr⟩ := hready _ hk hs
    exact hr.grows hs

theorem Effect.nodup (he : Effect d l l' dep e) (hd : l.nodeIds.Nodup)
    (hfresh : ∀ id task, e = .brought id task → id ∉ l.nodeIds) : l'.nodeIds.Nodup := by
  cases he with
  | kept => exact hd
  | added id task position =>
    have hid : (Node.ofTask id task position).id ∉ l.nodeIds := hfresh _ _ rfl
    rw [Level.nodeIds_mk, List.map_append]
    exact hd.append (List.nodup_singleton _) (List.disjoint_singleton.mpr hid)
  | connected e hw => exact hd
  | removed hn => exact hd.sublist (List.eraseP_sublist.map _)
  | flagged flag id =>
    rw [Merge.nodeIds_setFlag]
    exact hd
  | merged hk hs =>
    obtain ⟨-, -, rfl, -⟩ := Merge.stage_ok.mp hs
    exact Merge.nodeIds_quotient ▸ hd.filter _

-- ---------------------------------------------------------------------------
-- Runs
-- ---------------------------------------------------------------------------

/-- A level that is being edited, with the ids that its nodes have or have had. -/
structure Bench (σ : Type) where
  level : Level
  desk : Desk σ
  used : List String

namespace Bench

/-- A level on which no merge has begun. -/
def start (l : Level) (tokens : TokenSupply) (store : σ) : Bench σ :=
  ⟨l, { tokens, store }, l.nodeIds⟩

def answer (b : Bench σ) (c : Command σ) : Answer := (c.edit b.desk b.level).result.1

def posting (b : Bench σ) (c : Command σ) : Posting := c.posting (b.answer c)

def after (b : Bench σ) (c : Command σ) : Bench σ :=
  let e := c.edit b.desk b.level
  ⟨e.level, e.result.2, e.level.nodeIds ++ b.used⟩

/-- A node that the command adds has an id of its own. -/
def Fresh (b : Bench σ) (c : Command σ) : Prop :=
  ∀ id task, b.posting c = .brought id task → id ∉ b.used

structure Tracked (b : Bench σ) : Prop where
  ids : b.level.nodeIds.Nodup
  used : ∀ id ∈ b.level.nodeIds, id ∈ b.used
  orderly : b.desk.Orderly
  live : ∀ p ∈ b.desk.pending, Merge.Live b.level p
  pending : ∀ p ∈ b.desk.pending, p.target ∈ b.used ∧ p.dropped ∈ b.used

variable {b b' : Bench σ} {c : Command σ}

theorem Tracked.ready (h : b.Tracked) (hk : b.desk.Knows b.level r)
    (hs : Merge.stage r b.level = .ok l') : ∃ x y, Merge.Ready b.level r x y := by
  rcases hk.pending with hp | hp
  · exact (h.live _ hp).ready hs
  · exact hp.live.ready hs

theorem Tracked.grows (h : b.Tracked) (hf : b.Fresh c) (hj : j ∈ b.used) :
    b.level.Grows (b.after c).level j :=
  (Command.effect_edit h.orderly c).grows h.ids (fun _ hk hs => h.ready hk hs)
    fun _ _ hb hid => hf _ _ hb (hid ▸ hj)

theorem Tracked.known (h : b.Tracked) (hp : p ∈ (b.after c).desk.pending) :
    Merge.Live b.level p ∧ p.target ∈ b.used ∧ p.dropped ∈ b.used := by
  rcases Command.pending_edit hp with hp | hp
  · exact ⟨h.live p hp, h.pending p hp⟩
  · exact ⟨hp.live, h.used _ (Level.data?_mem hp.targetData),
      h.used _ (Level.data?_mem hp.droppedData)⟩

theorem Tracked.step (h : b.Tracked) (hf : b.Fresh c) : (b.after c).Tracked where
  ids := (Command.effect_edit h.orderly c).nodup h.ids fun id _ hb hid =>
    hf _ _ hb (h.used id hid)
  used id hid := List.mem_append_left _ hid
  orderly := Command.orderly_edit h.orderly
  live p hp := by
    obtain ⟨hlive, ht, hd⟩ := h.known hp
    exact hlive.step (h.grows hf ht) (h.grows hf hd)
  pending p hp := by
    obtain ⟨-, ht, hd⟩ := h.known hp
    exact ⟨List.mem_append_right _ ht, List.mem_append_right _ hd⟩

/-- Commands one after the other. Ids of nodes are never used again. -/
inductive Run (b : Bench σ) : Bench σ → Prop
  | refl : Run b b
  | step {b' : Bench σ} {c : Command σ} : Run b b' → b'.Fresh c → Run b (b'.after c)

theorem Run.tracked (hr : Run b b') (h : b.Tracked) : b'.Tracked := by
  induction hr with
  | refl => exact h
  | step _ hf ih => exact ih.step hf

theorem start_tracked {tokens : TokenSupply} {store : σ} (hd : l.nodeIds.Nodup) :
    (start l tokens store).Tracked where
  ids := hd
  used _ hid := hid
  orderly _ hr := nomatch hr
  live _ hp := nomatch hp
  pending _ hp := nomatch hp

theorem Run.spent (hr : Run b b') (h : b.Tracked) (hu : p.target ∈ b.used ∧ p.dropped ∈ b.used)
    (hs : Merge.Spent b.level p) : Merge.Spent b'.level p := by
  suffices hall : p.target ∈ b'.used ∧ p.dropped ∈ b'.used ∧ Merge.Spent b'.level p from hall.2.2
  induction hr with
  | refl => exact ⟨hu.1, hu.2, hs⟩
  | step hrun hf ih =>
    -- Both ids are used, so no node that is added comes back under one of them.
    obtain ⟨ht, hd, hs⟩ := ih
    have htracked := hrun.tracked h
    exact ⟨List.mem_append_right _ ht, List.mem_append_right _ hd,
      hs.step (htracked.grows hf ht) (htracked.grows hf hd)⟩

theorem answer_spent {k : Nat} {s : Merge.Setting σ} (hk : b.desk.resolved[k]? = some r)
    (hs : Merge.Spent b.level r.toPending) :
    ∃ id, b.answer (.commit s k) = .committed (.error (.stale id)) := by
  obtain ⟨id, hid⟩ := hs.stale
  refine ⟨id, ?_⟩
  simp only [answer, Command.edit, hk, Merge.commit, hid]
  rfl

/-- Removing a node takes the node of the id, if there is one. -/
theorem posting_remove : b.posting (.remove id) = .taken n ↔ b.level.node? id = some n := by
  simp only [posting, answer, Command.edit, Edited.map_result, Level.remove]
  cases b.level.node? id with
  | none =>
    constructor
    · rintro ⟨⟩
    · rintro ⟨⟩
  | some m =>
    constructor
    · rintro ⟨⟩
      rfl
    · rintro ⟨⟩
      rfl

/-- In every run, a command leaves the tasks of its level as they are but for what it brings and
takes: a node that is added brings its task, one that is removed takes its own. A merge that succeeds
gives its target the tasks of both nodes, and no merge that was pending then and shares a node with
it succeeds later. -/
theorem merges_keep_tasks {tokens : TokenSupply} {store : σ} (hv : l.validate = .ok ())
    (hrun : Run (start l tokens store) b) (c : Command σ) (hf : b.Fresh c) :
    ((b.after c).level.sourceTasks ++ (b.posting c).takes).Perm
      (b.level.sourceTasks ++ (b.posting c).brings) ∧
    (∀ task position, ∃ id, b.posting (.addTask task position) = .brought id task.normalized) ∧
    (∀ id n, b.posting (.remove id) = .taken n ↔ b.level.node? id = some n) ∧
    ∀ target dropped, b.posting c = .merged target dropped →
      (∃ x y z, b.level.data? target = some x ∧ b.level.data? dropped = some y ∧
        (b.after c).level.data? target = some z ∧
        z.combined = some (x.sourceTasks ++ y.sourceTasks)) ∧
      dropped ∉ (b.after c).level.nodeIds ∧
      ∀ b' s k r, Run (b.after c) b' → b'.desk.resolved[k]? = some r →
        r.toPending ∈ b.desk.pending → r.Shares target dropped →
        ∃ id, b'.answer (.commit s k) = .committed (.error (.stale id)) := by
  have h := hrun.tracked (start_tracked (Level.validate_ok.mp hv).here.ids)
  obtain ⟨dep, heffect⟩ : ∃ dep, Effect b.desk b.level (b.after c).level dep (b.posting c) :=
    ⟨_, Command.effect_edit h.orderly c⟩
  refine ⟨heffect.sourceTasks h.ids fun _ hk hs => h.ready hk hs, fun _ _ => ⟨_, rfl⟩,
    fun _ _ => posting_remove, ?_⟩
  intro target dropped hposting
  rw [hposting] at heffect
  generalize hafter : (b.after c).level = l' at heffect ⊢
  cases heffect with
  | @merged _ r₀ hk hs =>
    obtain ⟨x, y, hr⟩ := h.ready hk hs
    obtain ⟨z, hz, hc, -⟩ := hr.merged hs
    refine ⟨⟨x, y, z, hr.target, hr.dropped, hz, hc⟩, ?_, ?_⟩
    · obtain ⟨-, -, rfl, -⟩ := Merge.stage_ok.mp hs
      simp [Merge.nodeIds_quotient]
    · intro b' s k r hrun' hk' hp hshare
      have hu := h.pending _ hp
      have hspent := hr.spends hs (h.live _ hp) hshare
      refine answer_spent hk' (hrun'.spent (h.step hf) ?_ (hafter ▸ hspent))
      exact ⟨List.mem_append_right _ hu.1, List.mem_append_right _ hu.2⟩

/-- Three nodes for two merges that overlap in the node they drop. -/
def overlapping : Level where
  nodes := [.ofTask "a" { id := "t1", name := "Alpha" } none,
    .ofTask "b" { id := "t2", name := "Beta" } none, .ofTask "c" { id := "t3", name := "Gamma" } none]

/-- A node is added, then two merges begin and get their tasks. -/
def bothPending (setting : Merge.Setting MemoryStore) : Bench MemoryStore :=
  (((((start overlapping ⟨toString, 0⟩ {}).after (.addTask { id := "t4", name := "Delta" } none)).after
    (.start "a" "b")).after (.start "c" "b")).after (.resolve setting 0)).after (.resolve setting 1)

/-- The node that was added is removed again. Of the merges the first one succeeds, and the second
one cannot succeed after it. -/
theorem merges_keep_tasks_overlapping :
    ∃ (setting : Merge.Setting MemoryStore) (b : Bench MemoryStore) (id : String) (n : Node),
      overlapping.validate = .ok () ∧ Run (start overlapping ⟨toString, 0⟩ {}) b ∧
      b.level.sourceTasks.map (·.id) = ["t1", "t2", "t3", "t4"] ∧
      b.posting (.remove id) = .taken n ∧ n.sourceTasks.map (·.id) = ["t4"] ∧
      ((b.after (.remove id)).level.sourceTasks ++ n.sourceTasks).Perm b.level.sourceTasks ∧
      let b' := b.after (.remove id)
      b'.Fresh (.commit setting 0) ∧ b'.posting (.commit setting 0) = .merged "a" "b" ∧
      (b'.after (.commit setting 0)).level.sourceTasks.Perm b'.level.sourceTasks ∧
      ∃ id, (b'.after (.commit setting 0)).answer (.commit setting 1) =
        .committed (.error (.stale id)) := by
  let setting : Merge.Setting MemoryStore := { append := MemoryStore.put }
  let b := bothPending setting
  have hrun : Run (start overlapping ⟨toString, 0⟩ {}) b := by
    refine .step (.step (.step (.step (.step .refl ?added) ?_) ?_) ?_) ?_
    case added =>
      rintro id task ⟨⟩
      decide +kernel
    all_goals exact fun _ _ h => nomatch h
  have hremove : b.Fresh (.remove "task-0") := fun _ _ h => nomatch h
  obtain ⟨hperm, -, htaken, -⟩ := merges_keep_tasks rfl hrun (.remove "task-0") hremove
  obtain ⟨n, hn, hids⟩ : ∃ n, b.level.node? "task-0" = some n ∧ n.sourceTasks.map (·.id) = ["t4"] :=
    ⟨_, rfl, rfl⟩
  have hposting := (htaken "task-0" n).mpr hn
  let b' := b.after (.remove "task-0")
  have hrun' : Run (start overlapping ⟨toString, 0⟩ {}) b' := hrun.step hremove
  have hcommit : b'.Fresh (.commit setting 0) := fun _ _ h => nomatch h
  obtain ⟨hperm', -, -, hmerged⟩ := merges_keep_tasks rfl hrun' (.commit setting 0) hcommit
  have hposting' : b'.posting (.commit setting 0) = .merged "a" "b" := rfl
  refine ⟨setting, b, "task-0", n, rfl, hrun, rfl, hposting, hids, ?_, hcommit, hposting', ?_, ?_⟩
  · simpa [hposting, Posting.takes, Posting.brings] using hperm
  · simpa [hposting', Posting.takes, Posting.brings] using hperm'
  · obtain ⟨-, -, hspent⟩ := hmerged "a" "b" hposting'
    exact hspent _ setting 1 _ .refl rfl (.tail _ (.head _)) ⟨"b", .inr rfl, .inr rfl⟩

end Bench

end Workflow

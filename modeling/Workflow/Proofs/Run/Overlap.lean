import Workflow.Proofs.Merge.Quotient

/-!
# Overlapping merges

A merge does not lock the node it drops, so overlapping merges may be pending at once. What stops the
later one is that the tasks of a node that stays only grow: a node that has taken part in a merge is
gone, or stands for more tasks than any merge pending then has taken down.
-/

namespace Workflow

def Node.sourceTasks (n : Node) : List Task := n.data.elim [] TaskData.sourceTasks

/-- The tasks that the nodes of a level stand for. -/
def Level.sourceTasks (l : Level) : List Task := l.nodes.flatMap Node.sourceTasks

variable {l l' : Level} {id j : String} {was x y z : TaskData} {p : Merge.Pending}
variable {r : Merge.Resolved}

-- ---------------------------------------------------------------------------
-- The tasks of a node grow
-- ---------------------------------------------------------------------------

/-- `y` stands for the same tasks as `x`, or for more. -/
def TaskData.Extends (y x : TaskData) : Prop :=
  y.sourceTasks = x.sourceTasks ∨ x.sourceTasks.length < y.sourceTasks.length

namespace TaskData

theorem Extends.refl (x : TaskData) : x.Extends x := .inl rfl

theorem Extends.trans (h : z.Extends y) (h' : y.Extends x) : z.Extends x := by
  unfold Extends at *
  rcases h with h | h
  · rw [h]
    exact h'
  · rcases h' with h' | h'
    · exact .inr (h' ▸ h)
    · exact .inr (Nat.lt_trans h' h)

theorem sourceTasks_some {ts : List Task} (h : x.combined = some ts) (hne : ts ≠ []) :
    x.sourceTasks = ts := by
  unfold sourceTasks
  cases ts with
  | nil => exact absurd rfl hne
  | cons t ts => simp [h]

/-- Data that compares equal stands for equally many tasks. -/
theorem sourceTasks_length_of_beq (h : (x.combined == y.combined) = true) :
    x.sourceTasks.length = y.sourceTasks.length := by
  -- The tasks need not be equal, since they hold floats; lists that compare equal are equally long.
  have hlen : ∀ ts us, x.combined = some ts → y.combined = some us → ts.length = us.length := by
    intro ts us hx hy
    rw [hx, hy] at h
    exact List.length_eq_of_beq h
  unfold sourceTasks
  rcases hx : x.combined with _ | _ | ⟨t, ts⟩ <;> rcases hy : y.combined with _ | _ | ⟨u, us⟩ <;>
    simp_all

end TaskData

namespace Level

/-- The node of the id is gone, or stands for the tasks that `was` stands for or for more. -/
def Follows (l : Level) (id : String) (was : TaskData) : Prop :=
  ∀ x ∈ l.data? id, x.Extends was

/-- The node of the id is gone, or stands for more tasks than `was`. -/
def Outgrown (l : Level) (id : String) (was : TaskData) : Prop :=
  ∀ x ∈ l.data? id, was.sourceTasks.length < x.sourceTasks.length

/-- From `l` to `l'` the node of the id has gone, or its tasks have grown. -/
def Grows (l l' : Level) (id : String) : Prop :=
  ∀ y ∈ l'.data? id, ∃ x ∈ l.data? id, y.Extends x

theorem Follows.step (h : l.Follows id was) (hg : l.Grows l' id) : l'.Follows id was := by
  intro y hy
  obtain ⟨x, hx, hyx⟩ := hg y hy
  exact hyx.trans (h x hx)

theorem Outgrown.step (h : l.Outgrown id was) (hg : l.Grows l' id) : l'.Outgrown id was := by
  intro y hy
  obtain ⟨x, hx, hyx⟩ := hg y hy
  have hlt := h x hx
  rcases hyx with hyx | hyx
  · exact hyx ▸ hlt
  · exact Nat.lt_trans hlt hyx

theorem grows_of_eq (h : l'.data? id = l.data? id) : l.Grows l' id :=
  fun y hy => ⟨y, h ▸ hy, .refl y⟩

end Level

-- ---------------------------------------------------------------------------
-- What a pending merge knows
-- ---------------------------------------------------------------------------

namespace Merge

theorem not_outgrown (h : unchanged l id was = true) : ¬ l.Outgrown id was := by
  obtain ⟨x, hx, -, hc⟩ := unchanged_iff.mp h
  intro hout
  exact Nat.lt_irrefl _ (TaskData.sourceTasks_length_of_beq hc ▸ hout x hx)

/-- The nodes of a merge are different, and hold what it has taken down or stand for more. -/
structure Live (l : Level) (p : Pending) : Prop where
  ne : p.target ≠ p.dropped
  sources : p.sources = p.targetData.sourceTasks ++ p.droppedData.sourceTasks
  target : l.Follows p.target p.targetData
  dropped : l.Follows p.dropped p.droppedData

theorem Begun.live (h : Begun p.target p.dropped l p) : Live l p where
  ne := h.ne
  sources := h.sources
  target x hx := by
    obtain rfl : p.targetData = x := Option.some.inj (h.targetData.symm.trans hx)
    exact .refl _
  dropped x hx := by
    obtain rfl : p.droppedData = x := Option.some.inj (h.droppedData.symm.trans hx)
    exact .refl _

/-- A merge that is staged merges exactly what its nodes stand for. -/
structure Ready (l : Level) (r : Resolved) (x y : TaskData) : Prop where
  ne : r.target ≠ r.dropped
  target : l.data? r.target = some x
  dropped : l.data? r.dropped = some y
  sources : r.sources = x.sourceTasks ++ y.sourceTasks

theorem Live.ready (h : Live l r.toPending) (hs : stage r l = .ok l') :
    ∃ x y, Ready l r x y := by
  obtain ⟨ht, hd, -⟩ := stage_ok.mp hs
  have same : ∀ id was, unchanged l id was = true → l.Follows id was →
      ∃ x, l.data? id = some x ∧ x.sourceTasks = was.sourceTasks := by
    intro id was hu hf
    obtain ⟨x, hx, -, hc⟩ := unchanged_iff.mp hu
    -- A node that has outgrown its tasks would not compare equal to what it was.
    refine ⟨x, hx, (hf x hx).resolve_right ?_⟩
    rw [TaskData.sourceTasks_length_of_beq hc]
    exact Nat.lt_irrefl _
  obtain ⟨x, hx, hxs⟩ := same _ _ ht h.target
  obtain ⟨y, hy, hys⟩ := same _ _ hd h.dropped
  exact ⟨x, y, h.ne, hx, hy, by rw [h.sources, hxs, hys]⟩

-- ---------------------------------------------------------------------------
-- What a merge does to the tasks of its level
-- ---------------------------------------------------------------------------

theorem Ready.sources_ne (h : Ready l r x y) : r.sources ≠ [] := by
  have hpos := x.sourceTasks_pos
  intro hnil
  rw [h.sources] at hnil
  simp [List.append_eq_nil_iff.mp hnil] at hpos

/-- The target of a merge that is staged stands for its own tasks and then for the dropped ones. -/
theorem Ready.merged (h : Ready l r x y) (hs : stage r l = .ok l') :
    ∃ z, l'.data? r.target = some z ∧ z.combined = some (x.sourceTasks ++ y.sourceTasks) ∧
      x.sourceTasks.length < z.sourceTasks.length := by
  obtain ⟨-, -, rfl, -⟩ := stage_ok.mp hs
  obtain ⟨z, hz, hc⟩ : ∃ z, (quotient r.target r.dropped r.task r.sources l).data? r.target = some z ∧
      z.combined = some r.sources := by
    rw [data?_quotient, if_neg h.ne, if_pos rfl, h.target]
    exact ⟨_, rfl, rfl⟩
  refine ⟨z, hz, h.sources ▸ hc, ?_⟩
  have hpos := y.sourceTasks_pos
  rw [TaskData.sourceTasks_some hc h.sources_ne, h.sources, List.length_append]
  omega

theorem Ready.grows (h : Ready l r x y) (hs : stage r l = .ok l') : l.Grows l' j := by
  obtain ⟨z, hz, -, hlt⟩ := h.merged hs
  obtain ⟨-, -, rfl, -⟩ := stage_ok.mp hs
  by_cases hd : j = r.dropped
  · intro w hw
    rw [data?_quotient, if_pos hd] at hw
    cases hw
  by_cases ht : j = r.target
  · subst ht
    intro w hw
    obtain rfl : z = w := Option.some.inj (hz.symm.trans hw)
    exact ⟨x, h.target, .inr hlt⟩
  · exact Level.grows_of_eq (by rw [data?_quotient, if_neg hd, if_neg ht])

/-- A merge keeps the tasks of its level: they only change places. -/
theorem Ready.sourceTasks (h : Ready l r x y) (hd : l.nodeIds.Nodup) (hs : stage r l = .ok l') :
    l'.sourceTasks.Perm l.sourceTasks := by
  obtain ⟨-, -, rfl, -⟩ := stage_ok.mp hs
  obtain ⟨nb, hnb, hy⟩ := Level.data?_eq_some.mp h.dropped
  obtain ⟨na, hna, hx⟩ := Level.data?_eq_some.mp h.target
  obtain ⟨rest, hold, hnew⟩ := perm_quotient r.task r.sources h.ne hd hna hnb
  have hid : na.id = r.target := (Level.node?_mem hna).2
  have hmerged : (takeOver r.target r.task r.sources na).sourceTasks =
      na.sourceTasks ++ nb.sourceTasks := by
    simp only [Node.sourceTasks, takeOver, hid, if_true, Node.mapData_data, hx, hy, Option.map_some,
      Option.elim_some, ← h.sources]
    exact TaskData.sourceTasks_some rfl h.sources_ne
  have hnew := hnew.flatMap_right Node.sourceTasks
  have hold := hold.flatMap_right Node.sourceTasks
  rw [List.flatMap_cons, hmerged] at hnew
  rw [List.flatMap_cons, List.flatMap_cons, ← List.append_assoc] at hold
  exact (hnew.trans (List.perm_append_comm.append_right _)).trans hold.symm

-- ---------------------------------------------------------------------------
-- Merges that are spent
-- ---------------------------------------------------------------------------

def Pending.Shares (p : Pending) (a b : String) : Prop :=
  ∃ id, (id = a ∨ id = b) ∧ (id = p.target ∨ id = p.dropped)

/-- One of the nodes has outgrown what the merge has taken down. -/
def Spent (l : Level) (p : Pending) : Prop :=
  l.Outgrown p.target p.targetData ∨ l.Outgrown p.dropped p.droppedData

theorem Live.step (h : Live l p) (ht : l.Grows l' p.target) (hd : l.Grows l' p.dropped) :
    Live l' p :=
  ⟨h.ne, h.sources, h.target.step ht, h.dropped.step hd⟩

theorem Spent.step (h : Spent l p) (ht : l.Grows l' p.target) (hd : l.Grows l' p.dropped) :
    Spent l' p := by
  rcases h with h | h
  · exact .inl (h.step ht)
  · exact .inr (h.step hd)

theorem Ready.outgrown (h : Ready l r x y) (hs : stage r l = .ok l')
    (hid : id = r.target ∨ id = r.dropped) (hf : l.Follows id was) : l'.Outgrown id was := by
  rcases hid with rfl | rfl
  · obtain ⟨z, hz, -, hlt⟩ := h.merged hs
    intro w hw
    obtain rfl : z = w := Option.some.inj (hz.symm.trans hw)
    rcases hf x h.target with hxs | hxs
    · exact hxs ▸ hlt
    · exact Nat.lt_trans hxs hlt
  · obtain ⟨-, -, rfl, -⟩ := stage_ok.mp hs
    intro w hw
    rw [data?_quotient, if_pos rfl] at hw
    cases hw

theorem Ready.spends (h : Ready l r x y) (hs : stage r l = .ok l') (hp : Live l p)
    (hshare : p.Shares r.target r.dropped) : Spent l' p := by
  obtain ⟨id, hid, rfl | rfl⟩ := hshare
  · exact .inl (h.outgrown hs hid hp.target)
  · exact .inr (h.outgrown hs hid hp.dropped)

theorem Spent.stale (h : Spent l r.toPending) : ∃ id, stage r l = .error (.stale id) := by
  unfold stage
  split
  · exact ⟨_, rfl⟩
  rename_i ht
  split
  · exact ⟨_, rfl⟩
  rename_i hd
  rcases h with h | h
  · exact absurd h (not_outgrown (by simpa using ht))
  · exact absurd h (not_outgrown (by simpa using hd))

end Merge

end Workflow

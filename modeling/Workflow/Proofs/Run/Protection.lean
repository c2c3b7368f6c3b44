import Workflow.Proofs.Run.Flags

/-!
# How far the target of an open merge is protected

A merge flags its target, and no merge begins on a flagged node. But a commit does not look at the
flag of the node it drops. So while only steps of merges are taken, the target of an open merge keeps
its flag and is the target of no other one; it can still be dropped by a merge that began before.
-/

namespace Workflow.Register

variable {σ : Type} {l : Level} {r r' : Register σ} {c : Command σ} {p q : Merge.Pending} {a b : String}
variable {i k : Nat} {s : Merge.Setting σ} {tokens : TokenSupply} {store : σ}

/-- A merge that began before `k` and drops the node of the id is finished. -/
def DroppedBefore (r : Register σ) (k : Nat) (id : String) : Prop :=
  ∃ i < k, i ∈ r.finished ∧ ∃ p, r.desk.pending[i]? = some p ∧ p.dropped = id

/-- The target of an open merge is on the level, unless an older merge has dropped it. -/
def Guarded (r : Register σ) : Prop :=
  ∀ k p, r.Open k p → r.level.mark? p.target = none → r.DroppedBefore k p.target

theorem DroppedBefore.step {id : String} (h : r.DroppedBefore k id) (ht : Turn c r r') :
    r'.DroppedBefore k id := by
  obtain ⟨i, hik, hover, p, hp, hid⟩ := h
  refine ⟨i, hik, ?_, p, ht.pending_kept hp, hid⟩
  cases ht with
  | idle _ ho | began _ ho => exact ho ▸ hover
  | ended _ ho => exact ho ▸ List.mem_append_left _ hover

theorem Guarded.step (h : r.Guarded) (hr : r.Exclusive) (hkind : c.IsMergeStep) (hc : r.Allows c) :
    (r.after c).Guarded := by
  intro k q hk hgone
  have hstays : ∀ id, r.DroppedBefore k id → (r.after c).DroppedBefore k id :=
    fun _ h => h.step (turn hr.consistent hc)
  cases turn hr.consistent hc with
  | idle hp ho _ hsame =>
    rw [hsame hkind] at hgone
    exact hstays _ (h k q ⟨hp ▸ hk.begun, ho ▸ hk.unfinished⟩ hgone)
  | began hp ho hb hlevel =>
    rw [hlevel] at hgone
    rcases hk.before hp ho with hk | ⟨-, rfl⟩
    · rw [Merge.mark?_setFlag (hr.target_ne hk hb.marks.1)] at hgone
      exact hstays _ (h k q hk hgone)
    · rw [hb.mark_flagged] at hgone
      cases hgone
  | @ended m p hp ho hm hreleased =>
    obtain ⟨hkm, hk⟩ := hk.before_ended hp ho
    have hne : q.target ≠ p.target := fun heq => hkm (hr.unique k m q p hk hm heq)
    rcases hreleased.others _ hne with hsame | ⟨hdropped, -⟩
    · exact hstays _ (h k q hk (hsame ▸ hgone))
    · -- It is this merge that drops the target, so it began before.
      refine ⟨m, hr.older m k p q hm.begun hk hdropped.symm, ?_, p, hp ▸ hm.begun, hdropped.symm⟩
      exact ho ▸ List.mem_append_right _ List.mem_cons_self

theorem Run.guarded (hrun : Run Command.IsMergeStep r r') (h : r.Exclusive) (hg : r.Guarded) :
    r'.Guarded := by
  induction hrun with
  | refl => exact hg
  | step hrun hkind hc ih => exact ih.step (hrun.exclusive h) hkind hc

theorem start_guarded : (start l tokens store).Guarded :=
  fun _ _ hk => nomatch hk.begun

theorem posting_commit (h : r.posting (.commit s k) = .merged a b) :
    ∃ m, r.desk.resolved[k]? = some m ∧ m.target = a ∧ m.dropped = b := by
  simp only [Bench.posting, Bench.answer, Command.edit] at h
  split at h
  · rename_i m hk
    rcases hr : (Merge.commit s.append m r.desk.store r.level).result with ⟨e | o, store'⟩
    · simp [hr, Command.posting] at h
    · obtain ⟨-, -, -, rfl⟩ := Merge.commit_ok hr
      simp only [Edited.map_result, hr, Command.posting, Posting.merged.injEq] at h
      exact ⟨m, hk, h⟩
  · cases h

/-- In every run of steps of merges, as long as a merge is open its target is flagged, unless a merge
that began before has dropped it. No other merge that has it as its target succeeds, and none that
drops it unless it began before. -/
theorem open_target_protected (hv : l.validate = .ok ())
    (hrun : Run Command.IsMergeStep (start l tokens store) r) (hk : r.Open k p) :
    (∀ n ∈ r.level.nodes, n.id = p.target → n.isCombining = true) ∧
    (p.target ∉ r.level.nodeIds → r.DroppedBefore k p.target) ∧
    ∀ s j a b, r.Allows (.commit s j) → r.posting (.commit s j) = .merged a b →
      ∃ i, r.finishes (.commit s j) = [i] ∧
        (i ≠ k → a ≠ p.target ∧ (b = p.target → i < k)) := by
  have h := hrun.exclusive (start_exclusive hv)
  refine ⟨fun n hn hid => ?_, fun hgone => ?_, fun s j a b hc hposting => ?_⟩
  · have hheld := h.held k p hk
    rw [← hid, Level.mark?_of_mem h.consistent.tracked.ids hn] at hheld
    simpa using hheld
  · exact hrun.guarded (start_exclusive hv) start_guarded k p hk (Level.mark?_eq_none.mpr hgone)
  · obtain ⟨m, hm, rfl, rfl⟩ := posting_commit hposting
    obtain ⟨i, hi, hbegun⟩ := h.consistent.origin hm
    have hfinishes : r.finishes (.commit s j) = [i] := by simp [finishes, hi]
    have hopen : r.Open i m.toPending := ⟨hbegun, hc.once i (by simp [hfinishes])⟩
    refine ⟨i, hfinishes, fun hik => ⟨?_, h.older i k m.toPending p hbegun hk⟩⟩
    exact fun heq => hik (h.unique i k m.toPending p hopen hk heq)

/-- A merge of `b` onto `a`, and one of `c` onto `b` that begins after it. -/
def chained (setting : Merge.Setting MemoryStore) : Register MemoryStore :=
  (((start Bench.overlapping ⟨toString, 0⟩ {}).after (.start "a" "b")).after (.start "b" "c")).after
    (.resolve setting 0)

theorem chained_run (setting : Merge.Setting MemoryStore) :
    Run Command.IsMergeStep (start Bench.overlapping ⟨toString, 0⟩ {}) (chained setting) := by
  refine .step (.step (.step .refl trivial ?_) trivial ?_) trivial ?_
  all_goals exact .of_mergeStep trivial fun _ h => nomatch h

theorem open_target_protected_chained : ∃ (setting : Merge.Setting MemoryStore) (p : Merge.Pending),
    Bench.overlapping.validate = .ok () ∧
      Run Command.IsMergeStep (start Bench.overlapping ⟨toString, 0⟩ {}) (chained setting) ∧
      (chained setting).Open 1 p ∧ p.target = "b" ∧ "b" ∈ (chained setting).level.nodeIds ∧
      ∀ n ∈ (chained setting).level.nodes, n.id = "b" → n.isCombining = true := by
  let setting : Merge.Setting MemoryStore := { append := MemoryStore.put }
  have hopen : (chained setting).Open 1 _ := ⟨rfl, by decide⟩
  obtain ⟨hflagged, -⟩ := open_target_protected rfl (chained_run setting) hopen
  exact ⟨setting, _, rfl, chained_run setting, hopen, rfl, by decide, hflagged⟩

/-- The older merge is committed, and the target of the younger one is gone while that is open. -/
theorem target_dropped_while_open : ∃ (setting : Merge.Setting MemoryStore) (p : Merge.Pending),
    Run Command.IsMergeStep (start Bench.overlapping ⟨toString, 0⟩ {}) (chained setting) ∧
      (chained setting).Open 1 p ∧ p.target = "b" ∧ (chained setting).Allows (.commit setting 0) ∧
      (chained setting).finishes (.commit setting 0) = [0] ∧
      (chained setting).posting (.commit setting 0) = .merged "a" "b" ∧
      ((chained setting).after (.commit setting 0)).Open 1 p ∧
      "b" ∉ ((chained setting).after (.commit setting 0)).level.nodeIds := by
  let setting : Merge.Setting MemoryStore := { append := MemoryStore.put }
  refine ⟨setting, _, chained_run setting, ⟨rfl, by decide⟩, rfl, ?_, rfl, rfl, ⟨rfl, by decide⟩, ?_⟩
  · exact .of_mergeStep trivial (by decide)
  · decide

end Workflow.Register

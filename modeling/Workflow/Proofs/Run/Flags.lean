import Workflow.Proofs.Run.Register

/-!
# The flags are exact

An open merge holds its target: the node is flagged or has gone, and no other open merge has it as
its target. Where no node was flagged at the beginning, the nodes that are flagged are exactly the
targets of the open merges.
-/

namespace Workflow

variable {σ : Type} {l : Level} {r r' : Register σ} {c : Command σ} {p q : Merge.Pending}
variable {a b j : String} {i k : Nat}

theorem Merge.Begun.marks (h : Merge.Begun a b l p) :
    l.mark? a = some false ∧ l.mark? b = some false := by
  rw [Level.mark?_of_data h.targetData, Level.mark?_of_data h.droppedData, h.targetFree,
    h.droppedFree]
  exact ⟨rfl, rfl⟩

theorem Merge.Begun.mark_flagged (h : Merge.Begun a b l p) :
    (Merge.setFlag true a l).mark? a = some true :=
  Level.mark?_of_data (x := Merge.flagged true p.targetData) <| by
    rw [Merge.data?_setFlag, if_pos rfl, h.targetData]
    rfl

namespace Register

/-- Open merges hold their targets, each its own. -/
structure Exclusive (r : Register σ) : Prop where
  consistent : r.Consistent
  held : ∀ k p, r.Open k p → r.level.mark? p.target ≠ some false
  unique : ∀ i k p q, r.Open i p → r.Open k q → p.target = q.target → i = k
  /-- A merge that drops the target of an open one has begun before it. -/
  older : ∀ i k p q, r.desk.pending[i]? = some p → r.Open k q → p.dropped = q.target → i < k

/-- Every flagged node is the target of an open merge. -/
def Owned (r : Register σ) : Prop :=
  ∀ j, r.level.mark? j = some true → ∃ k p, r.Open k p ∧ p.target = j

theorem Open.lt (h : r.Open k p) : k < r.desk.pending.length :=
  (List.getElem?_eq_some_iff.mp h.begun).1

theorem Exclusive.target_ne (h : r.Exclusive) (hk : r.Open k p) (hj : r.level.mark? j = some false) :
    p.target ≠ j := by
  rintro rfl
  exact h.held k p hk hj

-- ---------------------------------------------------------------------------
-- One command
-- ---------------------------------------------------------------------------

/-- Where no merge begins, it is enough that the open ones were open and still hold their targets. -/
theorem Exclusive.of_open (h : r.Exclusive) (hr : r'.Consistent)
    (hp : r'.desk.pending = r.desk.pending)
    (hopen : ∀ k p, r'.Open k p → r.Open k p ∧ r'.level.mark? p.target ≠ some false) :
    r'.Exclusive where
  consistent := hr
  held k p hk := (hopen k p hk).2
  unique i k p q hi hk := h.unique i k p q (hopen i p hi).1 (hopen k q hk).1
  older i k p q hi hk := h.older i k p q (hp ▸ hi) (hopen k q hk).1

theorem Open.before (h : r'.Open k q) (hp : r'.desk.pending = r.desk.pending ++ [p])
    (ho : r'.finished = r.finished) : r.Open k q ∨ k = r.desk.pending.length ∧ q = p := by
  have hbegun := h.begun
  rw [hp, List.getElem?_append] at hbegun
  split at hbegun
  · exact .inl ⟨hbegun, ho ▸ h.unfinished⟩
  · rename_i hk
    have hlt := h.lt
    rw [hp, List.length_append, List.length_singleton] at hlt
    have hk : k = r.desk.pending.length := by omega
    subst hk
    exact .inr ⟨rfl, by simpa using hbegun.symm⟩

theorem Open.before_ended {m : Nat} (h : r'.Open k q) (hp : r'.desk.pending = r.desk.pending)
    (ho : r'.finished = r.finished ++ [m]) : k ≠ m ∧ r.Open k q := by
  have hout : k ∉ r.finished ++ [m] := ho ▸ h.unfinished
  refine ⟨fun heq => hout (by simp [heq]), hp ▸ h.begun, fun hmem => ?_⟩
  exact hout (List.mem_append_left _ hmem)

theorem Exclusive.begin (h : r.Exclusive) (hr : r'.Consistent)
    (hp : r'.desk.pending = r.desk.pending ++ [p]) (ho : r'.finished = r.finished)
    (hb : Merge.Begun p.target p.dropped r.level p)
    (hlevel : r'.level = Merge.setFlag true p.target r.level) : r'.Exclusive where
  consistent := hr
  held k q hk := by
    rw [hlevel]
    rcases hk.before hp ho with hk | ⟨-, rfl⟩
    · rw [Merge.mark?_setFlag (h.target_ne hk hb.marks.1)]
      exact h.held k q hk
    · rw [hb.mark_flagged]
      exact nofun
  unique i k q₁ q₂ hi hk heq := by
    rcases hi.before hp ho with hi | ⟨hlast, rfl⟩
    · rcases hk.before hp ho with hk | ⟨-, rfl⟩
      · exact h.unique i k q₁ q₂ hi hk heq
      · exact absurd heq (h.target_ne hi hb.marks.1)
    · rcases hk.before hp ho with hk | ⟨hlast', -⟩
      · exact absurd heq.symm (h.target_ne hk hb.marks.1)
      · exact hlast.trans hlast'.symm
  older i k q₁ q₂ hi hk heq := by
    rw [hp, List.getElem?_append] at hi
    split at hi
    · rename_i hlt
      rcases hk.before hp ho with hk | ⟨rfl, -⟩
      · exact h.older i k q₁ q₂ hi hk heq
      · exact hlt
    · -- The merge that begins drops a free node, which no open merge has as its target.
      obtain rfl : q₁ = p := List.mem_singleton.mp (List.mem_of_getElem? hi)
      rcases hk.before hp ho with hk | ⟨-, rfl⟩
      · exact absurd heq.symm (h.target_ne hk hb.marks.2)
      · exact absurd heq.symm hb.ne

theorem Exclusive.step (h : r.Exclusive) (hc : r.Allows c) : (r.after c).Exclusive := by
  have hr := h.consistent.step hc
  cases turn h.consistent hc with
  | idle hp ho hsteady =>
    refine h.of_open hr hp fun k q hk => ?_
    have hk : r.Open k q := ⟨hp ▸ hk.begun, ho ▸ hk.unfinished⟩
    refine ⟨hk, ?_⟩
    rcases hsteady q.target with hsame | hgone | ⟨hnew, -⟩
    · rw [hsame]
      exact h.held k q hk
    · rw [hgone]
      exact nofun
    · exact absurd (h.consistent.tracked.pending q (List.mem_of_getElem? hk.begun)).1 hnew
  | began hp ho hb hlevel => exact h.begin hr hp ho hb hlevel
  | @ended m p hp ho hm hreleased =>
    refine h.of_open hr hp fun k q hk => ?_
    obtain ⟨hkm, hk⟩ := hk.before_ended hp ho
    refine ⟨hk, ?_⟩
    -- The flag that is cleared is that of another merge, which has another target.
    have hne : q.target ≠ p.target := fun heq => hkm (h.unique k m q p hk hm heq)
    rcases hreleased.others _ hne with hsame | ⟨-, hgone⟩
    · rw [hsame]
      exact h.held k q hk
    · rw [hgone]
      exact nofun

theorem Owned.step (h : r.Owned) (hr : r.Consistent) (hc : r.Allows c) : (r.after c).Owned := by
  intro j hj
  cases turn hr hc with
  | idle hp ho hsteady =>
    rcases hsteady j with hsame | hgone | ⟨-, hfree⟩
    · obtain ⟨k, p, hk, rfl⟩ := h j (hsame ▸ hj)
      exact ⟨k, p, ⟨hp ▸ hk.begun, ho ▸ hk.unfinished⟩, rfl⟩
    · rw [hgone] at hj
      cases hj
    · rw [hfree] at hj
      cases hj
  | @began p hp ho hb hlevel =>
    by_cases hjp : j = p.target
    · refine ⟨r.desk.pending.length, p, ⟨?_, fun hmem => ?_⟩, hjp.symm⟩
      · simp [hp]
      · exact Nat.lt_irrefl _ (hr.finished _ (ho ▸ hmem))
    · rw [hlevel, Merge.mark?_setFlag hjp] at hj
      obtain ⟨k, q, hk, rfl⟩ := h j hj
      exact ⟨k, q, ⟨(turn hr hc).pending_kept hk.begun, ho ▸ hk.unfinished⟩, rfl⟩
  | @ended m p hp ho hm hreleased =>
    have hjp : j ≠ p.target := by
      rintro rfl
      exact hreleased.target hj
    rcases hreleased.others j hjp with hsame | ⟨-, hgone⟩
    · obtain ⟨k, q, hk, rfl⟩ := h j (hsame ▸ hj)
      refine ⟨k, q, ⟨hp ▸ hk.begun, ?_⟩, rfl⟩
      rw [ho, List.mem_append, List.mem_singleton]
      rintro (hmem | rfl)
      · exact hk.unfinished hmem
      · exact hjp (congrArg (·.target) (Option.some.inj (hk.begun.symm.trans hm.begun)))
    · rw [hgone] at hj
      cases hj

-- ---------------------------------------------------------------------------
-- Runs
-- ---------------------------------------------------------------------------

variable {kind : Command σ → Prop} {tokens : TokenSupply} {store : σ}

theorem start_exclusive (hv : l.validate = .ok ()) : (start l tokens store).Exclusive where
  consistent := start_consistent (Level.validate_ok.mp hv).here.ids
  held _ _ hk := nomatch hk.begun
  unique _ _ _ _ hi := nomatch hi.begun
  older _ _ _ _ hi := nomatch hi

theorem start_owned (hfree : ∀ n ∈ l.nodes, n.isCombining = false) :
    (start l tokens store).Owned := by
  intro j hj
  obtain ⟨n, hn, hflag⟩ := Option.map_eq_some_iff.mp hj
  exact absurd (hfree n (Level.node?_mem hn).1) (by simp [hflag])

theorem Run.exclusive (hrun : Run kind r r') (h : r.Exclusive) : r'.Exclusive := by
  induction hrun with
  | refl => exact h
  | step _ _ hc ih => exact ih.step hc

theorem Run.owned (hrun : Run kind r r') (h : r.Exclusive) (ho : r.Owned) : r'.Owned := by
  induction hrun with
  | refl => exact ho
  | step hrun _ hc ih => exact ih.step (hrun.exclusive h).consistent hc

theorem after_refused {e : MergeError} (h : r.answer (.start a b) = .started (.error e)) :
    r.after (.start a b) = { r with used := r.level.nodeIds ++ r.used } ∧
      Merge.Refusal a b r.level e := by
  have hr : (Merge.start a b r.level).result = .error e := by
    simpa [Bench.answer, Command.edit] using h
  refine ⟨?_, Merge.refusal_of_start hr⟩
  simp [after, Bench.after, Command.edit, hr, Merge.level_start_refused hr, Except.toOption, resolves,
    finishes]

/-- In every run from a level without flags, a node is flagged exactly if it is the target of one
merge that has begun and is not finished. A merge that is refused changes nothing, and when all
merges are finished any two nodes with tasks can be merged again. -/
theorem flags_exact (hv : l.validate = .ok ()) (hfree : ∀ n ∈ l.nodes, n.isCombining = false)
    (hrun : Run kind (start l tokens store) r) :
    (∀ n ∈ r.level.nodes, n.isCombining = true ↔ ∃! k, ∃ p, r.Open k p ∧ p.target = n.id) ∧
    (∀ i k p q, r.Open i p → r.Open k q → p.target = q.target → i = k) ∧
    (∀ a b e, r.answer (.start a b) = .started (.error e) →
      r.after (.start a b) = { r with used := r.level.nodeIds ++ r.used } ∧
        Merge.Refusal a b r.level e) ∧
    ((∀ k < r.desk.pending.length, k ∈ r.finished) →
      (∀ n ∈ r.level.nodes, n.isCombining = false) ∧
      ∀ a b x y, a ≠ b → r.level.data? a = some x → r.level.data? b = some y →
        ∃ p, r.answer (.start a b) = .started (.ok p)) := by
  have h := hrun.exclusive (start_exclusive hv)
  have howned := hrun.owned (start_exclusive hv) (start_owned hfree)
  have hids := h.consistent.tracked.ids
  refine ⟨fun n hn => ⟨fun hflag => ?_, ?_⟩, h.unique, fun a b e => after_refused, fun hall => ?_⟩
  · obtain ⟨k, p, hk, heq⟩ := howned n.id (by rw [Level.mark?_of_mem hids hn, hflag])
    refine ⟨k, ⟨p, hk, heq⟩, ?_⟩
    rintro i ⟨q, hi, heq'⟩
    exact h.unique i k q p hi hk (heq'.trans heq.symm)
  · rintro ⟨k, ⟨p, hk, heq⟩, -⟩
    have hheld := h.held k p hk
    rw [heq, Level.mark?_of_mem hids hn] at hheld
    simpa using hheld
  · have hclear : ∀ j, r.level.mark? j ≠ some true := by
      intro j hj
      obtain ⟨k, p, hk, -⟩ := howned j hj
      exact hk.unfinished (hall k hk.lt)
    refine ⟨fun n hn => ?_, fun a b x y hab hx hy => ?_⟩
    · have := hclear n.id
      rw [Level.mark?_of_mem hids hn] at this
      simpa using this
    · have hxf := hclear a
      have hyf := hclear b
      rw [Level.mark?_of_data hx] at hxf
      rw [Level.mark?_of_data hy] at hyf
      obtain ⟨p, hp⟩ := Merge.exists_begun hab hx hy (by simpa using hxf) (by simpa using hyf)
      refine ⟨p, ?_⟩
      simp [Bench.answer, Command.edit, Merge.start_ok.mpr hp]

/-- Two merges that drop `b`, of which the first is committed. -/
def firstDone (setting : Merge.Setting MemoryStore) : Register MemoryStore :=
  (((((start Bench.overlapping ⟨toString, 0⟩ {}).after (.start "a" "b")).after (.start "c" "b")).after
    (.resolve setting 0)).after (.resolve setting 1)).after (.commit setting 0)

/-- The flag stays on `c` until the other merge fails, and then the nodes can be merged. -/
theorem flags_exact_overlapping : ∃ setting : Merge.Setting MemoryStore,
    Bench.overlapping.validate = .ok () ∧ (∀ n ∈ Bench.overlapping.nodes, n.isCombining = false) ∧
      Run (fun _ => True) (start Bench.overlapping ⟨toString, 0⟩ {}) (firstDone setting) ∧
      (firstDone setting).level.nodeIds = ["a", "c"] ∧
      (∃! k, ∃ p, (firstDone setting).Open k p ∧ p.target = "c") ∧
      ∃ p, ((firstDone setting).after (.commit setting 1)).answer (.start "c" "a") =
        .started (.ok p) := by
  let setting : Merge.Setting MemoryStore := { append := MemoryStore.put }
  have hfree : ∀ n ∈ Bench.overlapping.nodes, n.isCombining = false := by decide
  have hrun : Run (fun _ => True) (start Bench.overlapping ⟨toString, 0⟩ {}) (firstDone setting) := by
    refine .step (.step (.step (.step (.step .refl trivial ?_) trivial ?_) trivial ?_) trivial ?_)
      trivial ?_
    all_goals exact .of_mergeStep trivial (by decide)
  have hrun' := hrun.step (c := .commit setting 1) trivial (.of_mergeStep trivial (by decide))
  obtain ⟨hiff, -⟩ := flags_exact rfl hfree hrun
  obtain ⟨-, -, -, hend⟩ := flags_exact rfl hfree hrun'
  refine ⟨setting, rfl, hfree, hrun, rfl, ?_, ?_⟩
  · exact (hiff _ (List.mem_cons_of_mem _ List.mem_cons_self)).mp rfl
  · exact (hend (by decide)).2 "c" "a" _ _ (by decide) rfl rfl

end Register

end Workflow

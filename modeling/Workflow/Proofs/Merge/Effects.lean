import Workflow.Proofs.Merge.Steps

/-!
# What a merge does to a store and to a graph

A merge reaches the store of tasks with one append at most, and it does the same whatever else is
kept next to the store. A graph changes as its level does; only a merge that succeeds changes its
phases.
-/

namespace Workflow

/-- Appending to a store in memory, which never fails. -/
def MemoryStore.put (t : Task) (s : MemoryStore) : Except StoreError Bool × MemoryStore :=
  (.ok (s.append t).1, (s.append t).2)

theorem MemoryStore.put_new {t : Task} {s s' : MemoryStore} {added : Bool}
    (h : put t s = (.ok added, s')) (hnew : ∀ u ∈ s.tasks, u.id ≠ t.id) :
    s'.tasks = s.tasks ++ [t] ∧ s'.announced = s.announced ++ [t.id] := by
  have hany : s.tasks.any (·.hasId t.id) = false := by
    simpa [Task.hasId] using hnew
  simp only [put, append, Task.appendNew, hany, Prod.mk.injEq] at h
  obtain ⟨-, rfl⟩ := h
  exact ⟨rfl, rfl⟩

namespace Merge

-- ---------------------------------------------------------------------------
-- What a merge does to a store
-- ---------------------------------------------------------------------------

section
variable {σ τ : Type} {append : Task → σ → Except StoreError Bool × σ}
variable {append' : Task → τ → Except StoreError Bool × τ} {f : σ → τ}
variable {c : Setting σ} {a b : String} {tokens : TokenSupply} {r : Resolved} {s : σ} {l : Level}

/-- A commit leaves the store alone or appends its task once. -/
theorem store_commit (append : Task → σ → Except StoreError Bool × σ) (r : Resolved) (s : σ)
    (l : Level) : (commit append r s l).result.2 = s ∨
      (commit append r s l).result.2 = (append r.task s).2 := by
  rcases h : (commit append r s l).result with ⟨e | o, s'⟩
  · obtain ⟨-, -, hs | ⟨cause, ha⟩⟩ := commit_error h
    · exact .inl hs
    · exact .inr (by rw [ha])
  · obtain ⟨-, -, ⟨added, ha⟩, -⟩ := commit_ok h
    exact .inr (by rw [ha])

theorem store_combine (c : Setting σ) (a b : String) (tokens : TokenSupply) (s : σ) (l : Level) :
    (combine c a b tokens s l).result.2.2 = s ∨
      ∃ t, (combine c a b tokens s l).result.2.2 = (c.append t s).2 := by
  unfold combine
  simp only
  split
  · exact .inl rfl
  split
  · exact .inl rfl
  · exact (store_commit _ _ _ _).imp (fun h => h) fun h => ⟨_, h⟩

/-- A commit does the same whatever else is kept next to the store. -/
theorem commit_map (h : ∀ t s, append' t (f s) = (append t s).map id f) :
    commit append' r (f s) l =
      { commit append r s l with result := (commit append r s l).result.map id f } := by
  unfold commit
  split
  · rfl
  · rw [h]
    rcases append r.task s with ⟨_ | _, s'⟩ <;> rfl

theorem combine_map (h : ∀ t s, append' t (f s) = (c.append t s).map id f) :
    combine { c with append := append' } a b tokens (f s) l =
      { combine c a b tokens s l with
        result := (combine c a b tokens s l).result.map id (·.map id f) } := by
  have hdrops (p : Pending) : Setting.dropsOut { c with append := append' } p = c.dropsOut p := rfl
  unfold combine
  simp only [hdrops]
  split
  · rfl
  split
  · rfl
  · rw [commit_map h]
    rfl

end

-- ---------------------------------------------------------------------------
-- Graphs
-- ---------------------------------------------------------------------------

variable {σ : Type} {append : Task → σ → Except StoreError Bool × σ}
variable {a b : String} {g g' : Graph} {s s' : σ} {p : Pending} {r : Resolved}
variable {o : Outcome} {e : MergeError}

theorem edit_eq {α : Type} {f : Level → Edited α} {x : α} (h : g.edit f = (x, g')) :
    (f g.toLevel).result = x ∧ (f g.toLevel).level = g'.toLevel ∧
      ((f g.toLevel).departure = none → g'.phases = g.phases) := by
  simp only [Graph.edit, Prod.mk.injEq] at h
  obtain ⟨hx, rfl⟩ := h
  refine ⟨hx, rfl, fun hd => ?_⟩
  simp [hd]

theorem edit_ext {α : Type} {f : Level → Edited α} {x : α} {l : Level} (h : g.edit f = (x, g'))
    (hl : (f g.toLevel).level = l) (hd : (f g.toLevel).departure = none) :
    g' = { l with phases := g.phases } := by
  obtain ⟨-, hlevel, hphases⟩ := edit_eq h
  obtain ⟨level, phases⟩ := g'
  simp_all

theorem edit_commit_ok (h : g.edit (commit append r s) = ((.ok o, s'), g')) :
    o.task = r.task ∧ (∃ added, append r.task s = (.ok added, s')) ∧
      g' = { quotient r.target r.dropped r.task r.sources g.toLevel with
        phases := g.phases.map (·.afterDeparture ⟨r.dropped, some r.target⟩) } := by
  simp only [Graph.edit, Prod.mk.injEq] at h
  obtain ⟨hresult, rfl⟩ := h
  obtain ⟨hstage, hdeparture, hadded, rfl⟩ := commit_ok hresult
  obtain ⟨-, -, hlevel, -⟩ := stage_ok.mp hstage
  exact ⟨rfl, hadded, by rw [hlevel, hdeparture]⟩

/-- A merge dropped while it waits for its name has done nothing. -/
theorem combine_cancelled {c : Setting σ} {tokens : TokenSupply} {l : Level}
    (h : (combine c a b tokens s l).result.1 = .ok .cancelled) :
    combine c a b tokens s l = { level := l, result := (.ok .cancelled, tokens, s) } := by
  cases hs : (start a b l).result with
  | error e => simp [combine_refused hs] at h
  | ok p =>
    have hbegun := start_ok.mp hs
    cases hout : c.dropsOut p with
    | true => exact combine_dropped hbegun hout
    | false =>
      rcases hr : resolve c.config c.namer c.hasClock tokens p with ⟨r, rest⟩
      rw [combine_committed hbegun hout hr] at h
      -- a commit answers with an outcome or an error
      cases hc : (commit c.append r s (setFlag true a l)).result.1 <;> simp [hc, Except.map] at h

/-- Three nodes. `b` has a loop, an edge from `a`, and a connection that `a` has too. -/
def sample : Graph where
  nodes := [.ofTask "a" { id := "t1", name := "Alpha" } none,
    .ofTask "b" { id := "t2", name := "Beta" } none, { id := "c", kind := .output }]
  edges := [⟨"1", "a", "b", none, false⟩, ⟨"2", "b", "c", none, true⟩, ⟨"3", "b", "b", none, false⟩,
    ⟨"4", "a", "c", some "on", false⟩, ⟨"5", "a", "a", none, false⟩, ⟨"6", "c", "b", none, true⟩]
  phases := [⟨"p", "Both", "red", ["b", "a"]⟩, ⟨"q", "Late", "blue", ["c", "b"]⟩]

def sampleMerge : Resolved where
  target := "a"
  dropped := "b"
  targetData := { task := { id := "t1", name := "Alpha" } }
  droppedData := { task := { id := "t2", name := "Beta" } }
  sources := [{ id := "t1", name := "Alpha" }, { id := "t2", name := "Beta" }]
  config := {}
  task := { id := "t3", name := "Alpha + Beta" }

end Merge

end Workflow

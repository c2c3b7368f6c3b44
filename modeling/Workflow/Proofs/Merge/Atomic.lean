import Workflow.Proofs.Merge.Effects
import Workflow.Proofs.Task.Shared
import Workflow.Task.Shelf

/-!
# A commit does everything or nothing

A commit touches two things, the graph and the store of tasks. It changes both or neither, up to the
flag that the merge set at its beginning, and a merge that is given up right after its beginning
leaves no trace. A subflow is the case of a graph without phases.

Whatever the store, a commit that succeeds has made one append. What the store lists then is up to
the store: one in memory lists the task as it was given, one in a file lists what it reads back.
-/

namespace Workflow

-- ---------------------------------------------------------------------------
-- What a store lists after an append
-- ---------------------------------------------------------------------------

/-- The store lists a task as it was given. A file gives back temperatures whose texts are read as
the same numbers, and it must not come up only when the directories of its path are made. -/
def Store.Faithful (files : Files) (t : Task) : Store → Prop
  | memory _ | unreachable _ => True
  | file s => (∀ ts, s.list files = .ok ts → ∀ u ∈ ts ++ [t], u.Exact) ∧
    (files.has s.path = false → (files.makeDirectories s.path.parent).2.has s.path = false)

section
variable {t : Task} {files files' : Files} {added : Bool}

/-- Who appends without an error has found a list of tasks. -/
theorem FileStore.append_listed {s s' : FileStore} (h : s.append t files = (.ok added, s', files')) :
    ∃ ts, s.list files = .ok ts := by
  have hends := append_ends t s files
  rw [h] at hends
  cases hread : s.list files with
  | ok ts => exact ⟨ts, rfl⟩
  | error e =>
    have hlocked {fs} (hl : Locked s.path files fs) : readTasks fs s.path = .error e :=
      readTasks_extends hl.extends hread
    cases hends with
    | known hl hread' _ | added hl hread' _ _ =>
      rw [hlocked hl] at hread'
      cases hread'

theorem FileStore.append_stored {s s' : FileStore} {ts : List Task}
    (h : s.append t files = (.ok added, s', files')) (hf : (Store.file s).Faithful files t)
    (hlist : s.list files = .ok ts) (hnew : ∀ u ∈ ts, u.id ≠ t.id) :
    s'.list files' = .ok (ts ++ [t]) ∧ s'.announced = s.announced ++ [t.id] := by
  obtain ⟨hexact, hway⟩ := hf
  have hholds : Holds files s.path ts := holds_of_read hlist hway
  have hends := append_ends t s files
  rw [h] at hends
  cases hends with
  | known hl hread hany =>
    rw [(hholds.locked hl).1] at hread
    obtain rfl := Except.ok.inj hread
    obtain ⟨u, hu, hid⟩ := List.any_eq_true.mp hany
    exact absurd (by simpa [Task.hasId] using hid) (hnew u hu)
  | added hl hread _ hfind =>
    rw [(hholds.locked hl).1] at hread
    obtain rfl := Except.ok.inj hread
    exact ⟨readTasks_render hfind (hexact ts hlist), rfl⟩

/-- A store that is faithful lists what it listed before, and behind it a task that is new. -/
theorem Store.append_stored {store store' : Store}
    (h : Store.append t (store, files) = (.ok added, store', files'))
    (hf : store.Faithful files t) : ∃ ts, store.list files = .ok ts ∧
      ((∀ u ∈ ts, u.id ≠ t.id) → store'.list files' = .ok (ts ++ [t]) ∧
        store'.announced = store.announced ++ [t.id]) := by
  cases store with
  | memory s =>
    refine ⟨s.tasks, rfl, fun hnew => ?_⟩
    cases h
    obtain ⟨htasks, hannounced⟩ := MemoryStore.put_new rfl hnew
    exact ⟨congrArg Except.ok htasks, hannounced⟩
  | file s =>
    rcases happend : s.append t files with ⟨answer, s', fs⟩
    simp only [append, happend, Prod.mk.injEq] at h
    obtain ⟨rfl, rfl, rfl⟩ := h
    obtain ⟨ts, hlist⟩ := FileStore.append_listed happend
    exact ⟨ts, hlist, FileStore.append_stored happend hf hlist⟩
  | unreachable reason => cases h

end

namespace Merge

-- ---------------------------------------------------------------------------
-- All or nothing
-- ---------------------------------------------------------------------------

/-- A commit that succeeds with the store puts its task behind those that the store lists, if there
is none of its id, and the store announces it once. -/
def Stores (store : Store) (files : Files) (r : Resolved) (g : Graph) : Prop :=
  ∀ o store' files' g', g.edit (commit Store.append r (store, files)) = ((.ok o, store', files'), g') →
    ∃ ts, store.list files = .ok ts ∧ ((∀ t ∈ ts, t.id ≠ o.task.id) →
      store'.list files' = .ok (ts ++ [o.task]) ∧
        store'.announced = store.announced ++ [o.task.id])

theorem stores_of_faithful {store : Store} {files : Files} {r : Resolved} (g : Graph)
    (h : store.Faithful files r.task) : Stores store files r g := by
  intro o store' files' g' hedit
  obtain ⟨ht, ⟨added, happend⟩, -⟩ := edit_commit_ok hedit
  rw [ht]
  exact Store.append_stored happend h

variable {σ : Type}

/-- A commit that succeeds has made one append, of its task, and left the merged level, with the
phases of a root brought up to date; a store that is faithful lists and announces the task then. A
commit that fails has changed nothing that can be seen of a store whose failing append changes
nothing, nor of the graph, but for the flag of the target. A merge given up right after its beginning
gives back the graph from before. -/
theorem commit_all_or_nothing (append : Task → σ → Except StoreError Bool × σ)
    (list : σ → Except StoreError (List Task)) (announced : σ → List String) (g : Graph) (s : σ)
    (r : Resolved) :
    (∀ o s' g', g.edit (commit append r s) = ((.ok o, s'), g') →
      o.task = r.task ∧ (∃ added, append o.task s = (.ok added, s')) ∧
        g' = { quotient r.target r.dropped r.task r.sources g.toLevel with
          phases := g.phases.map (·.afterDeparture ⟨r.dropped, some r.target⟩) }) ∧
    (∀ store files, Store.Faithful files r.task store → Stores store files r g) ∧
    ((∀ cause s', append r.task s = (.error cause, s') →
        list s' = list s ∧ announced s' = announced s) →
      ∀ e s' g', g.edit (commit append r s) = ((.error e, s'), g') →
        list s' = list s ∧ announced s' = announced s ∧
          g' = { setFlag false r.target g.toLevel with phases := g.phases }) ∧
    (∀ a b p g₁, g.edit (start a b) = (.ok p, g₁) →
      (g₁.edit (abort p)).2 = g ∧
      ∀ e s' g', r.toPending = p → g₁.edit (commit append r s) = ((.error e, s'), g') → g' = g) ∧
    (∀ (c : Setting σ) a b tokens rest g',
      g.edit (combine c a b tokens s) = ((.ok .cancelled, rest), g') →
        rest = (tokens, s) ∧ g' = g) := by
  refine ⟨?_, fun store files h => stores_of_faithful g h, ?_, ?_, ?_⟩
  · intro o s' g' h
    obtain ⟨ht, happend, hg⟩ := edit_commit_ok h
    exact ⟨ht, ht ▸ happend, hg⟩
  · intro hfailed e s' g' h
    obtain ⟨hlevel, hdeparture, hstore⟩ := commit_error (edit_eq h).1
    have hg := edit_ext h hlevel hdeparture
    -- Either the commit was refused before it reached the store, or the append failed.
    rcases hstore with rfl | ⟨cause, ha⟩
    · exact ⟨rfl, rfl, hg⟩
    · obtain ⟨hlist, hannounced⟩ := hfailed cause s' ha
      exact ⟨hlist, hannounced, hg⟩
  · intro a b p g₁ h
    obtain ⟨hp, hlevel, hphases⟩ := edit_eq h
    have hundo := (start_ok.mp hp).undo
    rw [hlevel] at hundo
    have hphases := hphases departure_start
    constructor
    · show ({ setFlag false p.target g₁.toLevel with phases := g₁.phases } : Graph) = g
      rw [hundo, hphases]
    · rintro e s' g' rfl h'
      obtain ⟨hfailed, hdeparture, -⟩ := commit_error (edit_eq h').1
      rw [edit_ext h' hfailed hdeparture, hundo, hphases]
  · intro c a b tokens rest g' h
    obtain ⟨hresult, -, -⟩ := edit_eq h
    have hcancelled := combine_cancelled (congrArg Prod.fst hresult)
    rw [hcancelled] at hresult
    refine ⟨(congrArg Prod.snd hresult).symm, ?_⟩
    rw [edit_ext h (congrArg Edited.level hcancelled) (congrArg Edited.departure hcancelled)]

/-- A store that refuses everything. -/
def fullDisk (_ : Task) (s : MemoryStore) : Except StoreError Bool × MemoryStore :=
  (.error (.io "tasks.json" "disk full"), s)

/-- A merge that is dropped after a millisecond, long before it gets its name. -/
def impatient : Setting MemoryStore where
  namer _ := { delay := 5, answer := .ok "Both" }
  patience := some 1
  append := MemoryStore.put

/-- A merge that is stored, one that is refused by its store and one that is aborted after their
beginnings, and one that is dropped. -/
theorem commit_all_or_nothing_sample :
    let kept : MemoryStore := { tasks := [{ id := "t0", name := "Old" }], announced := ["t0"] }
    (∃ o s' g', sample.edit (commit Store.append sampleMerge (.memory kept, {})) =
      ((.ok o, s'), g') ∧ s'.1.list s'.2 = .ok (kept.tasks ++ [o.task]) ∧
        s'.1.announced = ["t0", "t3"]) ∧
    (∃ g₁, sample.edit (start "a" "b") = (.ok sampleMerge.toPending, g₁) ∧
      (g₁.data? "a").map (·.combining) = some true ∧
      (∃ e s', g₁.edit (commit fullDisk sampleMerge kept) = ((.error e, s'), sample) ∧
        s'.tasks = kept.tasks ∧ s'.announced = kept.announced) ∧
      (g₁.edit (abort sampleMerge.toPending)).2 = sample) ∧
    sample.edit (combine impatient "a" "b" ⟨toString, 0⟩ kept) =
      ((.ok .cancelled, ⟨toString, 0⟩, kept), sample) := by
  intro kept
  let g₁ := (sample.edit (start "a" "b")).2
  have hbegun : sample.edit (start "a" "b") = (.ok sampleMerge.toPending, g₁) := rfl
  obtain ⟨-, -, -, hundone, hdropped⟩ := commit_all_or_nothing fullDisk
    (fun s => .ok s.tasks) MemoryStore.announced sample kept sampleMerge
  obtain ⟨haborted, hrefused⟩ := hundone "a" "b" _ g₁ hbegun
  refine ⟨?stored, ⟨g₁, hbegun, rfl, ?refused, haborted⟩, ?dropped⟩
  case stored =>
    obtain ⟨o, store, files, g', h⟩ : ∃ o store files g',
        sample.edit (commit Store.append sampleMerge (.memory kept, {})) =
          ((.ok o, store, files), g') := ⟨_, _, _, _, rfl⟩
    obtain ⟨hok, hstores, -⟩ := commit_all_or_nothing Store.append (fun s => s.1.list s.2)
      (·.1.announced) sample (.memory kept, {}) sampleMerge
    obtain ⟨htask, -⟩ := hok o _ g' h
    obtain ⟨ts, hts, hnew⟩ := hstores (.memory kept) {} trivial o store files g' h
    cases hts
    obtain ⟨hlist, hannounced⟩ := hnew (by simp [htask, kept, sampleMerge])
    exact ⟨o, _, g', h, hlist, by rw [hannounced, htask]; rfl⟩
  case refused =>
    obtain ⟨e, s', g', h⟩ : ∃ e s' g', g₁.edit (commit fullDisk sampleMerge kept) =
      ((.error e, s'), g') := ⟨_, _, _, rfl⟩
    obtain ⟨-, -, hfailed, -⟩ := commit_all_or_nothing fullDisk
      (fun s => .ok s.tasks) MemoryStore.announced g₁ kept sampleMerge
    obtain ⟨hlist, hannounced, -⟩ := hfailed (by rintro _ _ ⟨⟩; exact ⟨rfl, rfl⟩) e s' g' h
    obtain rfl := hrefused e s' g' rfl h
    exact ⟨e, s', h, Except.ok.inj hlist, hannounced⟩
  case dropped =>
    obtain ⟨rest, g', h⟩ : ∃ rest g', sample.edit (combine impatient "a" "b" ⟨toString, 0⟩ kept) =
      ((.ok .cancelled, rest), g') := ⟨_, _, rfl⟩
    obtain ⟨rfl, rfl⟩ := hdropped impatient _ _ _ rest g' h
    exact h

/-- A commit that is stored does not put its task behind the others if the list is another one. -/
theorem not_stores {store store' : Store} {files files' : Files} {r : Resolved} {g : Graph} {l' : Level}
    {added : Bool} {ts : List Task} (hs : stage r g.toLevel = .ok l')
    (happend : Store.append r.task (store, files) = (.ok added, store', files'))
    (hlist : store.list files = .ok ts) (hnew : ∀ t ∈ ts, t.id ≠ r.task.id)
    (hother : store'.list files' ≠ .ok (ts ++ [r.task])) : ¬Stores store files r g := by
  intro hstores
  obtain ⟨-, o, ho, -, -, ht⟩ := commit_staged hs happend
  obtain ⟨ts', hts, hbehind⟩ := hstores o store' files' _ (Prod.ext ho rfl)
  cases hlist.symm.trans hts
  exact hother (ht ▸ (hbehind (ht ▸ hnew)).1)

/-- Two tasks with temperatures, the mean of which is written with seventeen digits. -/
def lukewarm : Graph where
  nodes := [
    .ofTask "a" { id := "t1", name := "Alpha", config := { temperature := some 0.1 } } none,
    .ofTask "b" { id := "t2", name := "Beta", config := { temperature := some 0.7 } } none]
  edges := []
  phases := []

def lukewarmMerge : Resolved :=
  match (start "a" "b" lukewarm.toLevel).result with
  | .ok p => (resolve {} noNamer true ⟨toString, 0⟩ p).1
  | .error _ => sampleMerge

theorem mean_readsAs : FloatReadsAs 0.39999999999999997 0.4 where
  written := by decide +kernel
  read := by decide +kernel
  text := Json.ofText_numeral "0.39999999999999997"
    ⟨false, [0], some [3, 9, 9, 9, 9, 9, 9, 9, 9, 9, 9, 9, 9, 9, 9, 9, 7], none⟩
    (by decide +kernel) rfl rfl (by decide +kernel)

/-- What a store in a file lists may not be what a commit has given it. The numeral of a temperature
may be read as another number, and a file that was missing may come up when the directories of its
path are made. -/
theorem file_lists_otherwise :
    let old : Task := { id := "old", name := "Old" }
    let files : Files := ({} : Files).put ["t.json"] (.file (FileStore.render [old]))
    (∃ p g₁, lukewarm.edit (start "a" "b") = (.ok p, g₁) ∧ lukewarmMerge.toPending = p ∧
      lukewarmMerge.task.config.temperature = some 0.39999999999999997 ∧
      (∃ s' u, Store.append lukewarmMerge.task (.file ⟨⟨[], "t.json"⟩, []⟩, {}) = (.ok true, s') ∧
        s'.1.list s'.2 = .ok [u] ∧ u.config.temperature = some 0.4) ∧
      ¬Stores (.file ⟨⟨[], "t.json"⟩, []⟩) {} lukewarmMerge g₁) ∧
    ¬Stores (.file ⟨⟨[], "sub/../t.json"⟩, []⟩) files sampleMerge sample := by
  intro old files
  constructor
  · let g₁ := (lukewarm.edit (start "a" "b")).2
    have hmean : lukewarmMerge.task.config.temperature = some 0.39999999999999997 := by decide +kernel
    obtain ⟨u, hreads, hu⟩ : ∃ u, lukewarmMerge.task.ReadsAs u ∧ u.config.temperature = some 0.4 :=
      ⟨_, .intro (hmean ▸ .some mean_readsAs), rfl⟩
    have hparse : FileStore.parse (FileStore.render [lukewarmMerge.task]) = .ok [u] :=
      FileStore.parse_readsAs (.cons hreads .nil)
    obtain ⟨fs, happend, hfind⟩ := FileStore.plain_append lukewarmMerge.task
    have hstored : Store.append lukewarmMerge.task (.file ⟨FileStore.plain, []⟩, {}) =
        (.ok true, .file ⟨FileStore.plain, [lukewarmMerge.task.id]⟩, fs) := by
      simp only [Store.append, happend]
    have hlist : FileStore.readTasks fs FileStore.plain = .ok [u] := by
      rw [FileStore.readTasks_found hfind, hparse]
    have hstage : (stage lukewarmMerge g₁.toLevel).toOption.isSome := by decide +kernel
    obtain ⟨l', hl'⟩ := Option.isSome_iff_exists.mp hstage
    refine ⟨_, g₁, rfl, rfl, hmean, ⟨_, u, hstored, hlist, hu⟩, ?_⟩
    refine not_stores (toOption_eq_some.mp hl') hstored
      (FileStore.plain_missing (by simp)) (by simp) fun heq => ?_
    have hsame : u = lukewarmMerge.task := by
      simpa using (Except.ok.inj (hlist.symm.trans heq))
    rw [hsame, hmean] at hu
    revert hu
    decide +kernel
  · have hstage : stage sampleMerge sample.toLevel = .ok _ := rfl
    have hsub : files.content? ["sub"] = none := by simp [files, Files.content?_put]
    have hfile : files.content? ["t.json"] = some (.file (FileStore.render [old])) := by
      simp [files, Files.content?_put]
    obtain ⟨fs, happend, hfind⟩ := FileStore.detour_append (t := sampleMerge.task) hsub
      (by simp [files, Files.content?_put]) (by simp [files, Files.content?_put]) hfile
      (by simp [Task.Exact, old]) (by decide +kernel)
    have hstored : Store.append sampleMerge.task (.file ⟨FileStore.detour, []⟩, files) =
        (.ok true, .file ⟨FileStore.detour, [sampleMerge.task.id]⟩, fs) := by
      simp only [Store.append, happend]
    have hlist : FileStore.readTasks fs FileStore.detour = .ok [old, sampleMerge.task] :=
      FileStore.readTasks_render hfind (by simp [Task.Exact, old, sampleMerge])
    refine not_stores hstage hstored (FileStore.detour_missing hsub) (by simp) fun heq => ?_
    simpa using Except.ok.inj (hlist.symm.trans heq)

end Merge

end Workflow

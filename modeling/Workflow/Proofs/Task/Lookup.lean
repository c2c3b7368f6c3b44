import Mathlib.Data.List.Induction
import Workflow.Proofs.Merge.Quotient

/-!
# Catalogs find what they list

A catalog is asked in two ways: for the task of an id, through an index of places or a listing of the
store, and for all its tasks. `Agrees` says what the two answers have to do with one another; it holds
of every catalog made by inserts, and of every store laid behind one, readable or not.
-/

namespace Workflow

variable {ts : List Task} {t : Task} {id : String} {custom : Except StoreError (List Task)}

theorem find?_hasId_eq_none : ts.find? (·.hasId id) = none ↔ id ∉ ts.map (·.id) := by
  simp [List.find?_eq_none, Task.hasId]

/-- A look-up finds the first of the listed tasks that has the id, so none exactly if the id is not
listed. -/
structure Agrees (lookup : String → Option Task) (ids : List String) (tasks : List Task) : Prop where
  listed : ids = tasks.map (·.id)
  first : ∀ id, lookup id = tasks.find? (·.hasId id)
  unknown : ∀ id, lookup id = none ↔ id ∉ ids

theorem agrees_of_first {lookup : String → Option Task}
    (h : ∀ id, lookup id = ts.find? (·.hasId id)) : Agrees lookup (ts.map (·.id)) ts where
  listed := rfl
  first := h
  unknown id := by rw [h, find?_hasId_eq_none]

-- ---------------------------------------------------------------------------
-- Catalogs made by inserts
-- ---------------------------------------------------------------------------

namespace Catalog

variable {c : Catalog}

theorem lookup_eq (c : Catalog) (id : String) :
    c.lookup id = c.tasks.toList.find? (·.hasId id) := by
  rw [lookup, c.index_eq, ← Array.find?_eq_bind_findIdx?_getElem?, Array.find?_toList]
  rfl

theorem agrees (c : Catalog) : Agrees c.lookup c.ids c.tasks.toList :=
  agrees_of_first c.lookup_eq

theorem contains_eq_false : c.contains id = false ↔ id ∉ c.ids := by
  rw [contains, Option.isSome_eq_false_iff, Option.isNone_iff_eq_none, c.agrees.unknown]

/-- An insert adds a task at the end, or nothing if the id of the task is listed. -/
theorem tasks_insert : (c.insert t).1.tasks.toList =
    if t.id ∈ c.ids then c.tasks.toList else c.tasks.toList ++ [t] := by
  have hknown : c.index[t.id]? = none ↔ t.id ∉ c.ids := by
    simp [c.index_eq, ids]
  unfold insert
  split
  · rename_i hnone
    rw [if_neg (hknown.mp hnone), Array.toList_push]
  · rename_i hsome
    rw [if_pos (not_not.mp (mt hknown.mpr hsome))]

theorem ids_insert : (c.insert t).1.ids = if t.id ∈ c.ids then c.ids else c.ids ++ [t.id] := by
  rw [ids, tasks_insert, apply_ite (List.map _), List.map_append]
  rfl

/-- The tasks of a catalog are the first of each id among those inserted, in their order. -/
structure Lists (c : Catalog) (ts : List Task) : Prop where
  ids : c.ids = (ts.map (·.id)).eraseDups
  first : ∀ t ∈ c.tasks.toList, ts.find? (·.hasId t.id) = some t

theorem ofList_concat : ofList (ts ++ [t]) = ((ofList ts).insert t).1 := by
  simp [ofList]

theorem lists_ofList (ts : List Task) : (ofList ts).Lists ts := by
  induction ts using List.reverseRecOn with
  | nil => exact ⟨rfl, nofun⟩
  | append_singleton ts t ih =>
    rw [ofList_concat]
    refine ⟨?_, fun u hu => ?_⟩
    · rw [ids_insert, List.map_append, List.map_singleton, eraseDups_concat, ← ih.ids]
    · rw [List.find?_append]
      rw [tasks_insert] at hu
      by_cases hid : t.id ∈ (ofList ts).ids
      · rw [if_pos hid] at hu
        rw [ih.first u hu, Option.some_or]
      · rw [if_neg hid] at hu
        rcases List.mem_append.mp hu with hu | hu
        · rw [ih.first u hu, Option.some_or]
        · obtain rfl := List.mem_singleton.mp hu
          rw [ih.ids, List.mem_eraseDups] at hid
          rw [find?_hasId_eq_none.mpr hid]
          simp [Task.hasId]

end Catalog

-- ---------------------------------------------------------------------------
-- Catalogs with a store behind them
-- ---------------------------------------------------------------------------

namespace LayeredCatalog

variable {base : Catalog}

theorem tasks_ok (base : Catalog) (us : List Task) : tasks ⟨base, .ok us⟩ =
    base.tasks.toList ++ us.filter fun t => t.id ∉ base.ids := by
  simp only [tasks]
  congr 2
  funext t
  rw [Bool.eq_iff_iff, Bool.not_eq_true', Catalog.contains_eq_false, decide_eq_true_iff]

theorem tasks_error (base : Catalog) (e : StoreError) :
    tasks ⟨base, .error e⟩ = base.tasks.toList := by
  simp [tasks]

theorem lookup_ok (base : Catalog) (us : List Task) (id : String) :
    lookup ⟨base, .ok us⟩ id = (base.lookup id).or (us.find? (·.hasId id)) := by
  cases h : base.lookup id <;> simp [lookup, h, customTask, Except.map]

theorem agrees (c : LayeredCatalog) : Agrees c.lookup c.ids c.tasks := by
  refine agrees_of_first fun id => ?_
  obtain ⟨base, e | us⟩ := c
  · rw [tasks_error, ← base.lookup_eq]
    cases h : base.lookup id <;> simp [lookup, h, customTask, Except.map]
  · rw [tasks_ok, List.find?_append, ← base.lookup_eq, lookup_ok]
    cases h : base.lookup id with
    | some t => rfl
    | none =>
      have hid := (base.agrees.unknown id).mp h
      rw [Option.none_or, Option.none_or, List.find?_filter]
      -- A task with the id is not left out, for the catalog does not have it.
      congr 1
      funext t
      by_cases ht : t.id = id <;> simp [Task.hasId, ht, hid]

theorem ids_nodup (hus : ∀ us, custom = .ok us → (us.map (·.id)).Nodup) :
    (ids ⟨.ofList ts, custom⟩).Nodup := by
  have hbase : (Catalog.ofList ts).ids.Nodup := by
    rw [(Catalog.lists_ofList ts).ids]
    exact nodup_eraseDups _
  cases custom with
  | error e =>
    rw [ids, tasks_error]
    exact hbase
  | ok us =>
    rw [ids, tasks_ok, List.map_append]
    refine List.nodup_append'.mpr ⟨hbase, (hus us rfl).sublist (List.filter_sublist.map _), ?_⟩
    intro id hid hmem
    obtain ⟨t, ht, rfl⟩ := List.mem_map.mp hmem
    exact of_decide_eq_true (List.mem_filter.mp ht).2 hid

end LayeredCatalog

-- ---------------------------------------------------------------------------
-- Merged tasks
-- ---------------------------------------------------------------------------

namespace Merge

variable {σ : Type} {append : Task → σ → Except StoreError Bool × σ} {c : Setting MemoryStore}
variable {a b : String} {p : Pending} {r : Resolved} {o : Outcome} {l l' : Level}
variable {s s' : MemoryStore} {tokens rest : TokenSupply}

/-- The node that a merge changes gets its task. -/
theorem stage_task (hp : Begun a b l r.toPending) (h : stage r l = .ok l') :
    ∃ d, l'.data? a = some d ∧ d.task = r.task := by
  obtain ⟨-, -, rfl, -⟩ := stage_ok.mp h
  rw [hp.target, hp.dropped, data?_quotient, if_neg hp.ne, if_pos rfl, hp.targetData]
  exact ⟨_, rfl, rfl⟩

/-- What a look-up gives for the task of a merge that has reached a store in memory. -/
theorem lookup_put {added : Bool} (h : MemoryStore.put t s = (.ok added, s'))
    (hnew : t.id ∉ s.tasks.map (·.id)) (base : Catalog) :
    LayeredCatalog.lookup ⟨base, .ok s'.tasks⟩ t.id = (base.lookup t.id).or (some t) := by
  have hfresh : ∀ u ∈ s.tasks, u.id ≠ t.id := fun u hu hid =>
    hnew (hid ▸ List.mem_map_of_mem hu)
  rw [LayeredCatalog.lookup_ok, (MemoryStore.put_new h hfresh).1, List.find?_append,
    find?_hasId_eq_none.mpr hnew]
  simp [Task.hasId]

end Merge

/-- In a catalog made by inserts, and in one with a store behind it, a look-up finds the first of the
listed tasks that has the id. The inserts leave the first task of each id, in their order; a store
adds its tasks behind them except those whose ids are there already, and nothing if it cannot be
read. So the task of a merge that has gone into a store in memory under a new id is found behind
every catalog that does not have the id itself. -/
theorem Catalog.lookups_agree :
    (∀ ts, Agrees (ofList ts).lookup (ofList ts).ids (ofList ts).tasks.toList ∧
      (ofList ts).Lists ts) ∧
    (∀ ts (c : LayeredCatalog), c.base = ofList ts → Agrees c.lookup c.ids c.tasks ∧
      (∀ us, c.custom = .ok us →
        c.tasks = c.base.tasks.toList ++ us.filter fun u => u.id ∉ c.base.ids) ∧
      (∀ e, c.custom = .error e → c.tasks = c.base.tasks.toList) ∧
      ((∀ us, c.custom = .ok us → (us.map (·.id)).Nodup) → c.ids.Nodup)) ∧
    (∀ ts r s l o s', (Merge.commit MemoryStore.put r s l).result = (.ok o, s') →
      o.task.id ∉ s.tasks.map (·.id) →
      o.task = r.task ∧ LayeredCatalog.lookup ⟨ofList ts, .ok s'.tasks⟩ o.task.id =
        ((ofList ts).lookup o.task.id).or (some o.task)) ∧
    (∀ ts (c : Merge.Setting MemoryStore) a b tokens s l o rest s', c.append = MemoryStore.put →
      (Merge.combine c a b tokens s l).result = (.ok (.done o), rest, s') →
      o.task.id ∉ s.tasks.map (·.id) →
      (∃ d, (Merge.combine c a b tokens s l).level.data? a = some d ∧ d.task = o.task) ∧
        LayeredCatalog.lookup ⟨ofList ts, .ok s'.tasks⟩ o.task.id =
          ((ofList ts).lookup o.task.id).or (some o.task)) := by
  refine ⟨fun ts => ⟨agrees _, lists_ofList ts⟩, ?_, ?_, ?_⟩
  · rintro ts ⟨base, custom⟩ rfl
    refine ⟨LayeredCatalog.agrees _, ?_, ?_, LayeredCatalog.ids_nodup⟩
    · rintro us rfl
      exact LayeredCatalog.tasks_ok _ us
    · rintro e rfl
      exact LayeredCatalog.tasks_error _ e
  · intro ts r s l o s' h hnew
    obtain ⟨-, -, ⟨added, hput⟩, rfl⟩ := Merge.commit_ok h
    exact ⟨rfl, Merge.lookup_put hput hnew _⟩
  · intro ts c a b tokens s l o rest s' happend h hnew
    obtain ⟨r, hbegun, hstage, ⟨added, hput⟩, -, ht⟩ := Merge.combine_done h
    rw [happend, ← ht] at hput
    exact ⟨ht ▸ Merge.stage_task hbegun hstage, Merge.lookup_put hput hnew _⟩

/-- Three inserts, of which the last repeats an id. -/
def Catalog.repeating : List Task :=
  [{ id := "t1", name := "Alpha" }, { id := "t2", name := "Beta" }, { id := "t1", name := "Alias" }]

/-- The tasks of a store that repeats an id of the inserts and one of its own. -/
def Catalog.shadowed : List Task :=
  [{ id := "t2", name := "Theta" }, { id := "t9", name := "Iota" }, { id := "t9", name := "Kappa" }]

/-- Behind the inserts that store, one that cannot be read, and one in memory that has taken in the
task of a merge. -/
theorem Catalog.lookups_agree_repeating :
    (ofList repeating).ids = ["t1", "t2"] ∧
    LayeredCatalog.ids ⟨ofList repeating, .ok shadowed⟩ = ["t1", "t2", "t9", "t9"] ∧
    LayeredCatalog.lookup ⟨ofList repeating, .ok shadowed⟩ "t9" =
      some { id := "t9", name := "Iota" } ∧
    LayeredCatalog.ids ⟨ofList repeating, .error (.corrupt "eof")⟩ = ["t1", "t2"] ∧
    (LayeredCatalog.ids ⟨ofList repeating, .ok [{ id := "t9", name := "Iota" }]⟩).Nodup ∧
    (∃ o s', (Merge.commit MemoryStore.put Merge.sampleMerge {} Merge.sample.toLevel).result =
      (.ok o, s') ∧ LayeredCatalog.lookup ⟨ofList repeating, .ok s'.tasks⟩ "t3" = some o.task) ∧
    (∃ o rest s', (Merge.combine { append := MemoryStore.put } "a" "b" ⟨toString, 0⟩ {}
        Merge.sample.toLevel).result = (.ok (.done o), rest, s') ∧
      LayeredCatalog.lookup ⟨ofList repeating, .ok s'.tasks⟩ o.task.id = some o.task) := by
  obtain ⟨hinserts, hlayered, hcommit, hcombine⟩ := lookups_agree
  obtain ⟨hagrees, hlists⟩ := hinserts repeating
  have hids : (ofList repeating).ids = ["t1", "t2"] := hlists.ids.trans rfl
  have hunknown (id : String) (h : id ∉ ["t1", "t2"]) : (ofList repeating).lookup id = none :=
    (hagrees.unknown id).mpr (hids ▸ h)
  obtain ⟨hshadowed, htasks, -, -⟩ := hlayered repeating ⟨ofList repeating, .ok shadowed⟩ rfl
  have htasks := htasks _ rfl
  obtain ⟨hunread, -, hnothing, -⟩ :=
    hlayered repeating ⟨ofList repeating, .error (.corrupt "eof")⟩ rfl
  obtain ⟨-, -, -, hdistinct⟩ :=
    hlayered repeating ⟨ofList repeating, .ok [{ id := "t9", name := "Iota" }]⟩ rfl
  refine ⟨hids, ?_, ?_, ?_, hdistinct ?_, ⟨_, _, rfl, ?_⟩, ⟨_, _, _, rfl, ?_⟩⟩
  · rw [hshadowed.listed, htasks, List.map_append, ← ids, hids]
    rfl
  · rw [hshadowed.first, htasks, List.find?_append, ← hagrees.first,
      hunknown _ (by decide), hids]
    rfl
  · rw [hunread.listed, hnothing _ rfl]
    exact hids
  · rintro us hus
    cases hus
    decide
  · obtain ⟨-, h⟩ := hcommit repeating Merge.sampleMerge {} Merge.sample.toLevel _ _ rfl (by decide)
    exact h.trans (by rw [hunknown _ (by decide), Option.none_or])
  · obtain ⟨-, h⟩ := hcombine repeating { append := MemoryStore.put } "a" "b" ⟨toString, 0⟩ {}
      Merge.sample.toLevel _ _ _ rfl rfl (by decide)
    exact h.trans (by rw [hunknown _ (by decide), Option.none_or])

end Workflow

import Mathlib.Data.List.Nodup
import Workflow.Graph.Path

/-!
# Looking nodes up and replacing them

A level is read by the ids of its nodes. Replacing the first node of an id by one with the same id
changes what is found under that id and nothing else.
-/

namespace Workflow

variable {l : Level} {n m : Node} {ns : List Node} {es : List Edge} {id j : String}
variable {d : TaskData}

namespace Node

@[simp] theorem mapData_id (f : TaskData → TaskData) (n : Node) : (n.mapData f).id = n.id := rfl

@[simp] theorem mapData_data (f : TaskData → TaskData) (n : Node) :
    (n.mapData f).data = n.data.map f := rfl

/-- A node that carries a task, with another subflow. -/
def setSubflow (sub : Level) (n : Node) : Node :=
  n.mapData fun d => { d with subflow := some sub }

@[simp] theorem setSubflow_id (sub : Level) (n : Node) : (n.setSubflow sub).id = n.id := rfl

theorem setSubflow_subflow {sub : Level} (hs : n.subflow = some sub) (new : Level) :
    (n.setSubflow new).subflow = some new := by
  obtain ⟨id, kind, position, label, _ | d⟩ := n
  · cases hs
  · rfl

theorem setSubflow_self {sub : Level} (hs : n.subflow = some sub) : n.setSubflow sub = n := by
  obtain ⟨id, kind, position, label, _ | ⟨task, enabled, combined, _ | inner, combining⟩⟩ := n
  · cases hs
  · cases hs
  · cases hs
    rfl

theorem mapData_subflow {sub : Level} {g : Level → Level} (hs : n.subflow = some sub) :
    (n.mapData fun d => { d with subflow := d.subflow.map g }) = n.setSubflow (g sub) := by
  obtain ⟨id, kind, position, label, _ | ⟨task, enabled, combined, _ | inner, combining⟩⟩ := n
  · cases hs
  · cases hs
  · cases hs
    rfl

end Node

/-- A node that carries a task stands for at least one. -/
theorem TaskData.sourceTasks_pos (d : TaskData) : 0 < d.sourceTasks.length := by
  unfold sourceTasks
  split <;> simp

namespace Level

@[simp] theorem nodeIds_mk (es : List Edge) : (⟨ns, es⟩ : Level).nodeIds = ns.map (·.id) := rfl

theorem node?_eq_none : l.node? id = none ↔ id ∉ l.nodeIds := by
  simp [node?, nodeIds, List.find?_eq_none]

theorem contains_iff : l.contains id = true ↔ id ∈ l.nodeIds := by
  simp [contains, node?, nodeIds, List.find?_isSome]

theorem node?_mem (h : l.node? id = some n) : n ∈ l.nodes ∧ n.id = id :=
  ⟨List.mem_of_find?_eq_some h, by simpa using List.find?_some h⟩

/-- Where ids are distinct, a node is found under its id. -/
theorem node?_of_mem (hd : l.nodeIds.Nodup) (hn : n ∈ l.nodes) : l.node? n.id = some n := by
  cases h : l.node? n.id with
  | none => exact absurd (List.mem_map_of_mem hn) (node?_eq_none.mp h)
  | some m =>
    obtain ⟨hm, hid⟩ := node?_mem h
    rw [List.inj_on_of_nodup_map hd hm hn hid]

/-- The data of the first node of an id. -/
def data? (l : Level) (id : String) : Option TaskData :=
  (l.node? id).bind (·.data)

theorem data?_eq_some : l.data? id = some d ↔ ∃ n, l.node? id = some n ∧ n.data = some d := by
  simp [data?, Option.bind_eq_some_iff]

theorem data?_mem (h : l.data? id = some d) : id ∈ l.nodeIds := by
  obtain ⟨n, hn, -⟩ := data?_eq_some.mp h
  obtain ⟨hm, rfl⟩ := node?_mem hn
  exact List.mem_map_of_mem hm

-- ---------------------------------------------------------------------------
-- Replacing the first node of an id
-- ---------------------------------------------------------------------------

theorem mem_mapFirst {f : Node → Node} (h : m ∈ mapFirst id f ns) :
    m ∈ ns ∨ ∃ n ∈ ns, n.id = id ∧ m = f n := by
  induction ns with
  | nil => cases h
  | cons n ns ih =>
    simp only [mapFirst] at h
    split at h
    · rename_i hid
      rcases List.mem_cons.mp h with rfl | h
      · exact .inr ⟨n, List.mem_cons_self, by simpa using hid, rfl⟩
      · exact .inl (List.mem_cons_of_mem _ h)
    · rcases List.mem_cons.mp h with rfl | h
      · exact .inl List.mem_cons_self
      · rcases ih h with h | ⟨n', hn', h⟩
        · exact .inl (List.mem_cons_of_mem _ h)
        · exact .inr ⟨n', List.mem_cons_of_mem _ hn', h⟩

theorem mapFirst_self {f : Node → Node} (h : ∀ n, ns.find? (·.id == id) = some n → f n = n) :
    mapFirst id f ns = ns := by
  induction ns with
  | nil => rfl
  | cons n ns ih =>
    simp only [mapFirst]
    split
    · rename_i hid
      rw [h n (by simp [hid])]
    · rename_i hid
      rw [ih fun m hm => h m (by simpa [List.find?_cons, hid] using hm)]

theorem map_mapFirst {α : Type} {f : Node → Node} {g : Node → α}
    (h : ∀ n, n.id = id → g (f n) = g n) : (mapFirst id f ns).map g = ns.map g := by
  induction ns with
  | nil => rfl
  | cons n ns ih =>
    simp only [mapFirst]
    split
    · rename_i hid
      rw [List.map_cons, List.map_cons, h n (by simpa using hid)]
    · rw [List.map_cons, List.map_cons, ih]

section
variable {f : Node → Node} (hf : ∀ n, n.id = id → (f n).id = id)
include hf

theorem nodeIds_mapNode : (l.mapNode id f).nodeIds = l.nodeIds :=
  map_mapFirst fun n hn => (hf n hn).trans hn.symm

theorem find?_mapFirst (ns : List Node) :
    (mapFirst id f ns).find? (·.id == j) =
      if j = id then (ns.find? (·.id == id)).map f else ns.find? (·.id == j) := by
  induction ns with
  | nil => simp [mapFirst]
  | cons n ns ih =>
    simp only [mapFirst]
    by_cases hn : n.id = id <;> by_cases hj : j = id
    · simp [hn, hj, hf n hn]
    · simp [hn, hj, hf n hn, Ne.symm hj]
    · simpa [hn, hj, List.find?_cons] using ih
    · simp only [beq_iff_eq, hn, if_false, List.find?_cons, ih, hj]

theorem node?_mapNode :
    (l.mapNode id f).node? j = if j = id then (l.node? id).map f else l.node? j :=
  find?_mapFirst hf l.nodes

theorem mapFirst_mapFirst {g : Node → Node} :
    mapFirst id g (mapFirst id f ns) = mapFirst id (g ∘ f) ns := by
  induction ns with
  | nil => rfl
  | cons n ns ih =>
    simp only [mapFirst]
    split
    · rename_i hid
      have hid : n.id = id := by simpa using hid
      simp [mapFirst, hf n hid]
    · rename_i hid
      simp [mapFirst, hid, ih]

end

theorem data?_mapNode {f : Node → Node} {f' : TaskData → TaskData} (hid : ∀ n, (f n).id = n.id)
    (hf : ∀ n, (f n).data = n.data.map f') :
    (l.mapNode id f).data? j = if j = id then (l.data? id).map f' else l.data? j := by
  simp only [data?, node?_mapNode fun n hn => (hid n).trans hn]
  split
  · cases l.node? id <;> simp [hf]
  · rfl

-- ---------------------------------------------------------------------------
-- Adding nodes and leaving them out
-- ---------------------------------------------------------------------------

theorem data?_append (h : n.id ≠ j) : (⟨ns ++ [n], es⟩ : Level).data? j = (⟨ns, es⟩ : Level).data? j := by
  simp [data?, node?, List.find?_append, h]

theorem ids_filter_ne (ns : List Node) (id : String) :
    (ns.filter (·.id ≠ id)).map (·.id) = (ns.map (·.id)).filter (· ≠ id) := by
  simp [List.filter_map, Function.comp_def]

theorem filter_ne_tail (hd : ((n :: ns).map (·.id)).Nodup) : ns.filter (·.id ≠ n.id) = ns := by
  simp only [List.map_cons, List.nodup_cons, List.mem_map, not_exists, not_and] at hd
  exact List.filter_eq_self.mpr fun m hm => by simpa using hd.1 m hm

theorem eraseFirst_eq_filter (hd : (ns.map (·.id)).Nodup) :
    eraseFirst id ns = ns.filter (·.id ≠ id) := by
  induction ns with
  | nil => rfl
  | cons n ns ih =>
    unfold eraseFirst
    by_cases h : n.id = id
    · subst h
      simpa using (filter_ne_tail hd).symm
    · simpa [List.eraseP_cons, h, eraseFirst] using ih hd.of_cons

theorem find?_filter_ne (ns : List Node) (id j : String) :
    (ns.filter (·.id ≠ id)).find? (·.id == j) =
      if j = id then none else ns.find? (·.id == j) := by
  rw [List.find?_filter]
  split
  · rename_i h
    subst h
    exact List.find?_eq_none.mpr (by simp)
  · rename_i h
    congr 1
    funext n
    by_cases hn : n.id = j <;> simp [hn, h]

theorem node?_eraseFirst (hd : l.nodeIds.Nodup) :
    (⟨eraseFirst id l.nodes, es⟩ : Level).node? j = if j = id then none else l.node? j := by
  simp only [node?, eraseFirst_eq_filter hd, find?_filter_ne]

theorem data?_eraseFirst (hd : l.nodeIds.Nodup) :
    (⟨eraseFirst id l.nodes, es⟩ : Level).data? j = if j = id then none else l.data? j := by
  simp only [data?, node?_eraseFirst hd]
  split <;> rfl

/-- Where ids are distinct, a node can be taken out by its id. -/
theorem perm_filter_ne (hd : (ns.map (·.id)).Nodup) (hn : n ∈ ns) :
    ns.Perm (n :: ns.filter (·.id ≠ n.id)) := by
  induction ns with
  | nil => cases hn
  | cons m ns ih =>
    rcases List.mem_cons.mp hn with rfl | hn
    · rw [List.filter_cons_of_neg (by simp), filter_ne_tail hd]
    · have hne : m.id ≠ n.id := by
        intro h
        simp only [List.map_cons, List.nodup_cons, List.mem_map, not_exists, not_and] at hd
        exact hd.1 n hn h.symm
      rw [List.filter_cons_of_pos (by simpa using hne)]
      exact ((ih hd.of_cons hn).cons m).trans (.swap n m _)

end Level

-- ---------------------------------------------------------------------------
-- Phases after a departure
-- ---------------------------------------------------------------------------

namespace Phase

variable {ph : Phase} {dep : Departure}

theorem afterDeparture_of_not_mem (h : dep.removed ∉ ph.nodeIds) : ph.afterDeparture dep = ph := by
  simp [afterDeparture, h]

theorem mem_afterDeparture (h : dep.removed ∈ ph.nodeIds) :
    id ∈ (ph.afterDeparture dep).nodeIds ↔
      id ∈ ph.nodeIds ∧ id ≠ dep.removed ∨ dep.survivor = some id := by
  obtain ⟨removed, _ | s⟩ := dep
  · simp only [afterDeparture, List.contains_iff_mem.mpr h, if_true]
    simp
  · simp only [afterDeparture, List.contains_iff_mem.mpr h, if_true, Option.some.injEq]
    split
    · rename_i hs
      have hs : s ∈ ph.nodeIds ∧ s ≠ removed := by simpa using hs
      simp only [List.mem_filter, bne_iff_ne]
      exact ⟨.inl, fun h => h.elim (fun h => h) fun h => h ▸ hs⟩
    · simp [eq_comm (a := s)]

end Phase

end Workflow

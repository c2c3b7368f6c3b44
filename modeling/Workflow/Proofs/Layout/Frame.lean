import Workflow.Layout.Place
import Workflow.Proofs.Graph.Valid

/-!
# A layout changes positions only

`apply_unplaced`: at every depth, a level and its layout are the same once positions are erased.
What is read off a level without its positions therefore stays, by `Everywhere.of_unplaced`.
-/

namespace Workflow

namespace Level

mutual

/-- The level with all positions erased, at every depth. -/
def unplaced : Level → Level
  | ⟨nodes, edges⟩ => ⟨unplacedNodes nodes, edges⟩

def unplacedNodes : List Node → List Node
  | [] => []
  | ⟨id, kind, _, label, some ⟨task, enabled, combined, some sub, combining⟩⟩ :: ns =>
    ⟨id, kind, none, label, some ⟨task, enabled, combined, some sub.unplaced, combining⟩⟩ ::
      unplacedNodes ns
  | n :: ns => { n with position := none } :: unplacedNodes ns

end

end Level

variable {n m : Node} {d : TaskData} {l l' sub : Level} {ns ns' : List Node}
variable {p : Option Position} {c : Layout} {k : Nat}

def TaskData.unplaced (d : TaskData) : TaskData :=
  { d with subflow := d.subflow.map Level.unplaced }

def Node.unplaced (n : Node) : Node :=
  { n with position := none, data := n.data.map TaskData.unplaced }

@[simp] theorem TaskData.unplaced_task : d.unplaced.task = d.task := rfl

@[simp] theorem TaskData.unplaced_combined : d.unplaced.combined = d.combined := rfl

@[simp] theorem Node.unplaced_kind : n.unplaced.kind = n.kind := rfl

theorem Node.unplaced_data : n.unplaced.data = n.data.map TaskData.unplaced := rfl

theorem Node.unplaced_subflow : n.unplaced.subflow = n.subflow.map Level.unplaced := by
  obtain ⟨id, kind, position, label, _ | ⟨task, enabled, combined, _ | sub, combining⟩⟩ := n <;> rfl

namespace Level

theorem unplacedNodes_eq : unplacedNodes ns = ns.map Node.unplaced := by
  induction ns with
  | nil => rfl
  | cons n ns ih =>
    obtain ⟨id, kind, position, label, _ | ⟨task, enabled, combined, _ | sub, combining⟩⟩ := n <;>
      simp [unplacedNodes, ih, Node.unplaced, TaskData.unplaced]

theorem unplaced_nodes : l.unplaced.nodes = l.nodes.map Node.unplaced := by
  cases l
  rw [unplaced, unplacedNodes_eq]

theorem unplaced_edges : l.unplaced.edges = l.edges := by
  cases l
  rw [unplaced]

theorem unplaced_eq (hn : l.nodes.map Node.unplaced = l'.nodes.map Node.unplaced)
    (he : l.edges = l'.edges) : l.unplaced = l'.unplaced := by
  cases l
  cases l'
  simp only [unplaced, unplacedNodes_eq, mk.injEq]
  exact ⟨hn, he⟩

/-- Every node has its counterpart, with the same but positions. -/
theorem exists_unplaced (h : l.unplaced = l'.unplaced) (hm : m ∈ l'.nodes) :
    ∃ n ∈ l.nodes, n.unplaced = m.unplaced := by
  have hmem : m.unplaced ∈ l.nodes.map Node.unplaced := by
    rw [← unplaced_nodes, h, unplaced_nodes]
    exact List.mem_map_of_mem hm
  exact List.mem_map.mp hmem

/-- What holds of the nodes and edges of a level whatever the positions and the insides of the
nodes are, at every depth, holds of every level that differs in positions only. -/
theorem Everywhere.of_unplaced {P : Level → Prop} (hP : ∀ l l', l.unplaced = l'.unplaced → P l → P l')
    (hl : l.unplaced = l'.unplaced) (h : l.Everywhere P) : l'.Everywhere P := by
  induction h generalizing l' with
  | @intro l h _ ih =>
    refine .intro (hP l l' hl h) fun n' hn' sub' hs' => ?_
    obtain ⟨n, hn, hnn⟩ := exists_unplaced hl hn'
    have hsub : n.subflow.map unplaced = some sub'.unplaced := by
      rw [← Node.unplaced_subflow, hnn, Node.unplaced_subflow, hs', Option.map_some]
    obtain ⟨sub, hs, hss⟩ := Option.map_eq_some_iff.mp hsub
    exact ih n hn sub hs hss

end Level

namespace Layout

theorem applySubflows_cons : applySubflows c (n :: ns) =
    match n.subflow with
    | none => (applySubflows c ns).map fun (ns, k) => (n :: ns, k)
    | some sub => (apply c sub).bind fun (sub, i) => (applySubflows c ns).map fun (ns, k) =>
      (n.mapData (fun d => { d with subflow := some sub }) :: ns, i + k) := by
  obtain ⟨id, kind, position, label, _ | ⟨task, enabled, combined, _ | sub, combining⟩⟩ := n
  all_goals
    simp only [applySubflows, Node.subflow, Option.bind_some, Option.bind_none]
    cases applySubflows c ns <;> rfl

/-- A node with the position it is given, if it is given one. -/
theorem unplaced_given (given : Option Position) (n : Node) :
    (match given with
      | some p => { n with position := some p }
      | none => n).unplaced = n.unplaced := by
  cases given <;> rfl

theorem placeLevel_unplaced (h : c.placeLevel l = some (l', k)) : l'.unplaced = l.unplaced := by
  simp only [placeLevel, Option.bind_eq_bind, Option.bind_eq_some_iff, Option.pure_def,
    Option.some.injEq, Prod.mk.injEq] at h
  obtain ⟨placed, -, rfl, -⟩ := h
  refine Level.unplaced_eq ?_ rfl
  rw [List.map_map]
  calc List.map _ l.nodes.zipIdx
      = l.nodes.zipIdx.map (Node.unplaced ∘ Prod.fst) :=
        List.map_congr_left fun x _ => unplaced_given (placed.lookup x.2) x.1
    _ = l.nodes.map Node.unplaced := by rw [← List.map_map, List.zipIdx_map_fst]

theorem applySubflows_unplaced
    (ih : ∀ n ∈ ns, ∀ sub, n.subflow = some sub → ∀ sub' i, c.apply sub = some (sub', i) →
      sub'.unplaced = sub.unplaced)
    (h : c.applySubflows ns = some (ns', k)) : ns'.map Node.unplaced = ns.map Node.unplaced := by
  induction ns generalizing ns' k with
  | nil =>
    cases h
    rfl
  | cons n ns ihs =>
    have ihs := fun ns' k => @ihs ns' k fun m hm => ih m (List.mem_cons_of_mem _ hm)
    rw [applySubflows_cons] at h
    cases hs : n.subflow with
    | none =>
      simp only [hs, Option.map_eq_some_iff, Prod.mk.injEq] at h
      obtain ⟨⟨rest, i⟩, hrest, rfl, -⟩ := h
      rw [List.map_cons, List.map_cons, ihs rest i hrest]
    | some sub =>
      simp only [hs, Option.bind_eq_some_iff, Option.map_eq_some_iff, Prod.mk.injEq] at h
      obtain ⟨⟨sub', i⟩, hsub, ⟨rest, j⟩, hrest, rfl, -⟩ := h
      have hsame := ih n List.mem_cons_self sub hs sub' i hsub
      rw [List.map_cons, List.map_cons, ihs rest j hrest]
      congr 1
      obtain ⟨id, kind, position, label, _ | ⟨task, enabled, combined, _ | inner, combining⟩⟩ := n
      · cases hs
      · cases hs
      · cases hs
        simp [Node.unplaced, Node.mapData, TaskData.unplaced, hsame]

/-- A layout gives positions and changes nothing else, at any depth. -/
theorem apply_unplaced (h : c.apply l = some (l', k)) : l'.unplaced = l.unplaced := by
  induction l using Level.induction generalizing l' k with
  | h l ih =>
    obtain ⟨nodes, edges⟩ := l
    have ih : ∀ n ∈ nodes, ∀ sub, n.subflow = some sub → ∀ sub' i, c.apply sub = some (sub', i) →
        sub'.unplaced = sub.unplaced := fun n hn sub hs sub' i h => ih n hn sub hs h
    -- Both branches place the nodes of the level itself, with its subflows laid out or as they were.
    have here : ∀ inside j, inside.map Node.unplaced = nodes.map Node.unplaced →
        c.placeLevel ⟨inside, edges⟩ = some (l', j) → l'.unplaced = Level.unplaced ⟨nodes, edges⟩ :=
      fun inside j hinside hplaced =>
        (placeLevel_unplaced hplaced).trans (Level.unplaced_eq hinside rfl)
    simp only [apply] at h
    split at h <;>
      simp only [Option.bind_eq_bind, Option.bind_eq_some_iff, Option.pure_def, Option.some.injEq,
        Prod.mk.injEq] at h
    · obtain ⟨⟨inside, i⟩, hinside, ⟨placed, j⟩, hplaced, rfl, -⟩ := h
      exact here inside j (applySubflows_unplaced ih hinside) hplaced
    · obtain ⟨⟨inside, i⟩, hinside, ⟨placed, j⟩, hplaced, rfl, -⟩ := h
      cases hinside
      exact here nodes j rfl hplaced

end Layout

end Workflow

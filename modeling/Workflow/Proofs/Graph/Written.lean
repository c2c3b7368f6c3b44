import Workflow.Proofs.Json.Nested
import Workflow.Proofs.Task.Written

/-!
# Graphs that are written and read back

Writing leaves out what is absent and reading supplies what is missing; `written_preserved` says
that the two agree for every shape of the graph. The one thing a written graph loses is the flags
of pending merges, `unflagged`. Numbers have to be finite, since JSON has no others.
-/

namespace Workflow

-- ---------------------------------------------------------------------------
-- Finite numbers
-- ---------------------------------------------------------------------------

structure Position.Finite (p : Position) : Prop where
  x : p.x.isFinite
  y : p.y.isFinite

mutual

/-- The temperatures and positions inside task data are finite, at every depth. -/
inductive TaskData.Finite : TaskData → Prop
  | intro {d : TaskData} : d.task.Finite → (∀ ts, d.combined = some ts → ∀ t ∈ ts, t.Finite) →
      (∀ sub, d.subflow = some sub → sub.Finite) → d.Finite

inductive Node.Finite : Node → Prop
  | intro {n : Node} : (∀ p, n.position = some p → p.Finite) → (∀ d, n.data = some d → d.Finite) →
      n.Finite

inductive Level.Finite : Level → Prop
  | intro {l : Level} : (∀ n ∈ l.nodes, n.Finite) → l.Finite

end

def Graph.Finite (g : Graph) : Prop := g.toLevel.Finite

-- ---------------------------------------------------------------------------
-- Flags of pending merges
-- ---------------------------------------------------------------------------

namespace Level

mutual

/-- The level without the flags of pending merges, at every depth. -/
def unflagged : Level → Level
  | ⟨nodes, edges⟩ => ⟨unflaggedNodes nodes, edges⟩

def unflaggedNodes : List Node → List Node
  | [] => []
  | ⟨id, kind, position, label, some ⟨task, enabled, combined, some sub, _⟩⟩ :: ns =>
    ⟨id, kind, position, label, some ⟨task, enabled, combined, some sub.unflagged, false⟩⟩ ::
      unflaggedNodes ns
  | n :: ns => n.mapData (fun d => { d with combining := false }) :: unflaggedNodes ns

end

end Level

def TaskData.unflagged (d : TaskData) : TaskData :=
  { d with subflow := d.subflow.map Level.unflagged, combining := false }

def Node.unflagged (n : Node) : Node :=
  { n with data := n.data.map TaskData.unflagged }

def Graph.unflagged (g : Graph) : Graph :=
  { g.toLevel.unflagged with phases := g.phases }

namespace Level

variable {l : Level} {ns : List Node}

theorem unflaggedNodes_eq : unflaggedNodes ns = ns.map Node.unflagged := by
  induction ns with
  | nil => rfl
  | cons n ns ih =>
    obtain ⟨id, kind, position, label, _ | ⟨task, enabled, combined, _ | sub, combining⟩⟩ := n <;>
      simp [unflaggedNodes, ih, Node.unflagged, TaskData.unflagged, Node.mapData]

theorem unflagged_eq : l.unflagged = ⟨l.nodes.map Node.unflagged, l.edges⟩ := by
  cases l
  rw [unflagged, unflaggedNodes_eq]

end Level

-- ---------------------------------------------------------------------------
-- Flat structures
-- ---------------------------------------------------------------------------

open Record (Unambiguous)
open Workflow.Field (required_fills defaulted_fills omitted_fills flag_fills ite_omitted)
open Codec (string_rereads strings_reread bool_rereads float_rereads list_rereads string_refusesNull
  list_refusesNull)

theorem Position.rereads {p : Position} (hp : p.Finite) : codec.Rereads p p := by
  refine Record.rereads (fun seen => {
    x := if "x" ∈ seen then p.x else 0
    y := if "y" ∈ seen then p.y else 0 }) ?_ rfl ?_ fun seen h => ?_
  · simp [record, Unambiguous, Field.answersTo, Field.required]
  · simp only [record, List.forall_mem_cons, List.not_mem_nil, false_imp_iff, implies_true, and_true]
    exact ⟨required_fills (float_rereads hp.x) (by simp), required_fills (float_rereads hp.y) (by simp)⟩
  · simp [record, Field.required] at h
    simp [h]

theorem NodeKind.rereads (kind : NodeKind) : codec.Rereads kind kind :=
  Codec.name_rereads (by cases kind <;> rfl)

theorem Edge.rereads (e : Edge) : codec.Rereads e e := by
  refine Record.rereads (fun seen => {
    id := if "id" ∈ seen then e.id else ""
    source := if "source" ∈ seen then e.source else ""
    target := if "target" ∈ seen then e.target else ""
    label := if "label" ∈ seen then e.label else none
    animated := "animated" ∈ seen && e.animated }) ?_ rfl ?_ fun seen h => ?_
  · simp [record, Unambiguous, Field.answersTo, Field.required, Field.omitted, Field.flag]
  · simp only [record, List.forall_mem_cons, List.not_mem_nil, false_imp_iff, implies_true, and_true]
    exact ⟨required_fills (string_rereads _) (by simp), required_fills (string_rereads _) (by simp),
      required_fills (string_rereads _) (by simp),
      omitted_fills string_refusesNull (fun s _ => string_rereads s) (by simp +contextual),
      flag_fills (by simp +contextual)⟩
  · simp [record, Field.required, Field.omitted, Field.flag] at h
    obtain ⟨hid, hsource, htarget, hlabel, hanimated⟩ := h
    have hflag : (decide ("animated" ∈ seen) && e.animated) = e.animated := by
      cases hon : e.animated <;> simp_all
    simp only [if_pos hid, if_pos hsource, if_pos htarget, ite_omitted hlabel, hflag]

theorem Phase.rereads (p : Phase) : codec.Rereads p p := by
  refine Record.rereads (fun seen => {
    id := if "id" ∈ seen then p.id else ""
    name := if "name" ∈ seen then p.name else ""
    color := if "color" ∈ seen then p.color else ""
    nodeIds := if "nodeIds" ∈ seen then p.nodeIds else [] }) ?_ rfl ?_ fun seen h => ?_
  · simp [record, Unambiguous, Field.answersTo, Field.required, Field.defaulted]
  · simp only [record, List.forall_mem_cons, List.not_mem_nil, false_imp_iff, implies_true, and_true]
    exact ⟨required_fills (string_rereads _) (by simp), required_fills (string_rereads _) (by simp),
      defaulted_fills (string_rereads _) (by simp), defaulted_fills (strings_reread _) (by simp)⟩
  · simp [record, Field.required, Field.defaulted] at h
    simp [h]

-- ---------------------------------------------------------------------------
-- Structures around subflows
-- ---------------------------------------------------------------------------

section

variable {subflows : Codec Level} {d : TaskData} {n : Node} {l : Level} {g : Graph}

theorem TaskData.rereads (hd : d.Finite) (hnull : subflows.RefusesNull)
    (hsub : ∀ sub, d.subflow = some sub → subflows.Rereads sub sub.unflagged) :
    (record subflows).codec.Rereads d d.unflagged := by
  obtain ⟨htask, hcombined, -⟩ := hd
  refine Record.rereads (fun seen => {
    task := if "task" ∈ seen then d.task else { id := "", name := "" }
    enabled := if "enabled" ∈ seen then d.enabled else true
    combined := if "combinedTasks" ∈ seen then d.combined else none
    subflow := if "subflow" ∈ seen then d.unflagged.subflow else none }) ?_ rfl ?_ fun seen h => ?_
  · simp [record, Unambiguous, Field.answersTo, Field.required, Field.omitted, Field.defaulted]
  · simp only [record, List.forall_mem_cons, List.not_mem_nil, false_imp_iff, implies_true, and_true]
    have htasks : ∀ ts, d.combined = some ts → Task.codec.list.Rereads ts (ts.map fun t => t) :=
      fun ts hts => list_rereads fun t ht => Task.rereads (hcombined ts hts t ht)
    exact ⟨required_fills (Task.rereads htask) (by simp), defaulted_fills (bool_rereads _) (by simp),
      omitted_fills list_refusesNull htasks (by simp +contextual),
      omitted_fills hnull hsub (by simp +contextual [unflagged])⟩
  · simp [record, Field.required, Field.omitted, Field.defaulted] at h
    obtain ⟨htask, henabled, hcombined, hsubflow⟩ := h
    have hsubflow : d.unflagged.subflow.isSome → "subflow" ∈ seen := by simpa [unflagged] using hsubflow
    simp only [if_pos htask, if_pos henabled, ite_omitted hcombined, ite_omitted hsubflow]
    rfl

theorem Node.rereads (hn : n.Finite) (hnull : subflows.RefusesNull)
    (hsub : ∀ sub, n.subflow = some sub → subflows.Rereads sub sub.unflagged) :
    (record subflows).codec.Rereads n n.unflagged := by
  obtain ⟨hposition, hdata⟩ := hn
  refine Record.rereads (fun seen => {
    id := if "id" ∈ seen then n.id else ""
    kind := if "type" ∈ seen then n.kind else .task
    position := if "position" ∈ seen then n.position else none
    label := if "label" ∈ seen then n.label else none
    data := if "data" ∈ seen then n.unflagged.data else none }) ?_ rfl ?_ fun seen h => ?_
  · simp [record, Unambiguous, Field.answersTo, Field.required, Field.omitted]
  · simp only [record, List.forall_mem_cons, List.not_mem_nil, false_imp_iff, implies_true, and_true]
    have hinside : ∀ d, n.data = some d → (TaskData.record subflows).codec.Rereads d d.unflagged :=
      fun d hd => TaskData.rereads (hdata d hd) hnull fun sub hs => hsub sub (by simp [subflow, hd, hs])
    exact ⟨required_fills (string_rereads _) (by simp), required_fills (NodeKind.rereads _) (by simp),
      omitted_fills (Record.refusesNull _) (fun p hp => Position.rereads (hposition p hp)) (by simp +contextual),
      omitted_fills string_refusesNull (fun s _ => string_rereads s) (by simp +contextual),
      omitted_fills (Record.refusesNull _) hinside (by simp +contextual [unflagged])⟩
  · simp [record, Field.required, Field.omitted] at h
    obtain ⟨hid, hkind, hposition, hlabel, hdata⟩ := h
    have hdata : n.unflagged.data.isSome → "data" ∈ seen := by simpa [unflagged] using hdata
    simp only [if_pos hid, if_pos hkind, ite_omitted hposition, ite_omitted hlabel, ite_omitted hdata]
    rfl

theorem Level.rereads
    (hn : ∀ n ∈ l.nodes, (Node.record subflows).codec.Rereads n n.unflagged) :
    (record subflows).codec.Rereads l l.unflagged := by
  rw [unflagged_eq]
  refine Record.rereads (fun seen => {
    nodes := if "nodes" ∈ seen then l.nodes.map Node.unflagged else []
    edges := if "edges" ∈ seen then l.edges else [] }) ?_ rfl ?_ fun seen h => ?_
  · simp [record, Unambiguous, Field.answersTo, Field.defaulted]
  · simp only [record, List.forall_mem_cons, List.not_mem_nil, false_imp_iff, implies_true, and_true]
    exact ⟨defaulted_fills (list_rereads hn) (by simp),
      defaulted_fills (list_rereads fun e _ => Edge.rereads e) (by simp)⟩
  · simp [record, Field.defaulted] at h
    simp [h]

theorem Graph.rereads
    (hn : ∀ n ∈ g.nodes, (Node.record subflows).codec.Rereads n n.unflagged) :
    (record subflows).codec.Rereads g g.unflagged := by
  rw [unflagged, Level.unflagged_eq]
  refine Record.rereads (fun seen => {
    nodes := if "nodes" ∈ seen then g.nodes.map Node.unflagged else []
    edges := if "edges" ∈ seen then g.edges else []
    phases := if "phases" ∈ seen then g.phases else [] }) ?_ rfl ?_ fun seen h => ?_
  · simp [record, Unambiguous, Field.answersTo, Field.defaulted]
  · simp only [record, List.forall_mem_cons, List.not_mem_nil, false_imp_iff, implies_true, and_true]
    exact ⟨defaulted_fills (list_rereads hn) (by simp),
      defaulted_fills (list_rereads fun e _ => Edge.rereads e) (by simp),
      defaulted_fills (list_rereads fun p _ => Phase.rereads p) (by simp)⟩
  · simp [record, Field.defaulted] at h
    simp [h]

end

-- ---------------------------------------------------------------------------
-- Any depth
-- ---------------------------------------------------------------------------

open Codec (Around Nesting)

section

variable {l sub : Level} {d : TaskData} {n : Node} {ns : List Node} {depth : Nat}

theorem TaskData.around : Around (fun c => (record c).codec) (fun d sub => d.subflow = some sub) where
  write_congr h := Record.write_congr (by
    simpa [record, Field.required, Field.defaulted, Field.omitted] using Option.map_congr h)
  height_lt hs := Record.height_lt (k := "subflow")
    (by simp [Record.mem_written, record, Field.omitted, hs])

theorem Node.around : Around (fun c => (record c).codec) (fun n sub => n.subflow = some sub) where
  write_congr h := Record.write_congr (by
    simpa [record, Field.required, Field.omitted] using
      Option.map_congr fun d hd => TaskData.around.write_congr fun sub hs => h sub (by simp [subflow, hd, hs]))
  height_lt {c n sub} hs := by
    obtain ⟨d, hd, hs⟩ := Option.bind_eq_some_iff.mp hs
    calc
      (c.write sub).height < ((TaskData.record c).codec.write d).height := TaskData.around.height_lt hs
      _ < ((record c).codec.write n).height := Record.height_lt (k := "data")
        (by simp [Record.mem_written, record, Field.omitted, hd])

theorem Level.around :
    Around (fun c => (record c).codec) (fun l sub => ∃ n ∈ l.nodes, n.subflow = some sub) where
  write_congr h := Record.write_congr (by
    simpa [record, Field.defaulted] using Node.around.list.write_congr h)
  height_lt hs := Nat.lt_trans (Node.around.list.height_lt hs) (Record.height_lt (k := "nodes")
    (by simp [Record.mem_written, record, Field.defaulted]))

theorem Graph.around :
    Around (fun c => (record c).codec) (fun g sub => ∃ n ∈ g.nodes, n.subflow = some sub) where
  write_congr h := Record.write_congr (by
    simpa [record, Field.defaulted] using Node.around.list.write_congr h)
  height_lt hs := Nat.lt_trans (Node.around.list.height_lt hs) (Record.height_lt (k := "nodes")
    (by simp [Record.mem_written, record, Field.defaulted]))

theorem Level.heightNodes_le : heightNodes ns ≤ depth ↔
    ∀ n ∈ ns, ∀ sub, n.subflow = some sub → sub.height ≤ depth := by
  induction ns with
  | nil => simp [heightNodes]
  | cons n ns ih =>
    rw [List.forall_mem_cons, ← ih]
    obtain ⟨id, kind, position, label, _ | ⟨task, enabled, combined, _ | sub, combining⟩⟩ := n
    · simp [heightNodes, Node.subflow]
    · simp [heightNodes, Node.subflow]
    · rw [heightNodes, Nat.max_le]
      simp [Node.subflow]

theorem Level.height_le : l.height ≤ depth + 1 ↔
    ∀ sub, (∃ n ∈ l.nodes, n.subflow = some sub) → sub.height ≤ depth := by
  cases l
  rw [height, Nat.add_le_add_iff_right, heightNodes_le]
  exact ⟨fun h sub ⟨n, hn, hs⟩ => h n hn sub hs, fun h n hn sub hs => h sub ⟨n, hn, hs⟩⟩

theorem Node.height_le : n.height ≤ depth ↔ ∀ sub, n.subflow = some sub → sub.height ≤ depth := by
  simp [height, Level.heightNodes_le]

theorem Level.nesting :
    Nesting (fun c => (record c).codec) nested (fun l sub => ∃ n ∈ l.nodes, n.subflow = some sub)
      height where
  around := Level.around
  nested_succ _ := rfl
  refusesNull depth _ h := by cases depth <;> cases h
  height_pos l := by
    cases l
    simp [height]
  height_le := height_le

theorem Node.Finite.subflow (h : n.Finite) (hs : n.subflow = some sub) : sub.Finite := by
  obtain ⟨-, hd⟩ := h
  obtain ⟨d, hdata, hsub⟩ := Option.bind_eq_some_iff.mp hs
  obtain ⟨-, -, h⟩ := hd d hdata
  exact h sub hsub

theorem Level.Finite.node (h : l.Finite) (hn : n ∈ l.nodes) : n.Finite := by
  obtain ⟨h⟩ := h
  exact h n hn

/-- Every shape that is deep enough rereads a level. -/
theorem Level.nested_rereads (hl : l.Finite) (h : l.height ≤ depth) :
    (nested depth).Rereads l l.unflagged := by
  refine nesting.rereads (fun hl ⟨n, hn, hs⟩ => (hl.node hn).subflow hs) ?_ hl h
  intro c l hl hnull hsub
  exact Level.rereads fun n hn => Node.rereads (hl.node hn) hnull fun sub hs => hsub sub ⟨n, hn, hs⟩

end

-- ---------------------------------------------------------------------------
-- The shapes that are deep enough
-- ---------------------------------------------------------------------------

theorem Level.codec_rereads {l : Level} (hl : l.Finite) : codec.Rereads l l.unflagged :=
  nesting.level_rereads (nested_rereads hl)

theorem TaskData.codec_rereads {d : TaskData} (hd : d.Finite) : codec.Rereads d d.unflagged := by
  refine Level.nesting.around_rereads around (fun h sub hs => by simpa [hs] using h) (fun h => ?_)
    fun {depth} h => ?_
  · cases hs : d.subflow with
    | none => simp
    | some sub => exact Nat.le_succ_of_le (h sub hs)
  · obtain ⟨htask, hcombined, hinside⟩ := hd
    exact rereads ⟨htask, hcombined, hinside⟩ (Level.nesting.refusesNull depth) fun sub hs =>
      Level.nested_rereads (hinside sub hs) (h sub hs)

theorem Node.codec_rereads {n : Node} (hn : n.Finite) : codec.Rereads n n.unflagged := by
  refine Level.nesting.around_rereads around height_le.mp (fun h => ?_) fun {depth} h => ?_
  · exact Nat.le_succ_of_le (height_le.mpr h)
  · exact rereads hn (Level.nesting.refusesNull depth) fun sub hs =>
      Level.nested_rereads (hn.subflow hs) (h sub hs)

theorem Graph.codec_rereads {g : Graph} (hg : g.Finite) : codec.Rereads g g.unflagged := by
  refine Level.nesting.around_rereads around (fun h => Level.height_le.mp (Nat.le_succ_of_le h))
    Level.height_le.mpr fun {depth} h => ?_
  refine rereads fun n hn => Node.rereads (hg.node hn) (Level.nesting.refusesNull depth) fun sub hs => ?_
  exact Level.nested_rereads ((hg.node hn).subflow hs) (h sub ⟨n, hn, hs⟩)

/-- Graphs and all their parts, nested to any depth, are read back from what is written of them. -/
theorem Graph.written_preserved :
    Graph.codec.Preserves Graph.Finite Graph.unflagged ∧
    Level.codec.Preserves Level.Finite Level.unflagged ∧
    Node.codec.Preserves Node.Finite Node.unflagged ∧
    TaskData.codec.Preserves TaskData.Finite TaskData.unflagged ∧
    Edge.codec.Preserves (fun _ => True) id ∧
    Phase.codec.Preserves (fun _ => True) id ∧
    Task.codec.Preserves Task.Finite id :=
  ⟨Codec.preserves fun _ => Graph.codec_rereads, Codec.preserves fun _ => Level.codec_rereads,
    Codec.preserves fun _ => Node.codec_rereads, Codec.preserves fun _ => TaskData.codec_rereads,
    Codec.preserves fun e _ => Edge.rereads e, Codec.preserves fun p _ => Phase.rereads p,
    Codec.preserves fun _ => Task.rereads⟩

theorem Graph.written_preserved_nested :
    let warm : Task := { id := "t", name := "T", config := { temperature := some 0.5 } }
    let inner : Level := { nodes := [{
      id := "b", kind := .decision, position := some ⟨0.25, -1⟩
      data := some { task := warm, subflow := some {}, combining := true } }] }
    let graph : Graph := {
      nodes := [{
        id := "a", kind := .task, label := some ""
        data := some
          { task := warm, enabled := false, combined := some [], subflow := some inner, combining := true } }]
      edges := [{ id := "e", source := "a", target := "a", animated := true }]
      phases := [{ id := "p", name := "", nodeIds := ["a"] }] }
    graph.Finite ∧ Graph.codec.read (Graph.codec.write graph).canonical = .ok graph.unflagged ∧
      graph.nodes.map (·.isCombining) = [true] ∧ graph.unflagged.nodes.map (·.isCombining) = [false] := by
  intro warm inner graph
  have hwarm : warm.Finite := by
    intro x hx
    cases hx
    decide
  have hinner : inner.Finite := by
    refine .intro fun n hn => ?_
    rw [List.mem_singleton.mp hn]
    refine .intro (fun p hp => ?_) fun d hd => ?_
    · cases hp
      exact ⟨by decide, by decide⟩
    · cases hd
      refine .intro hwarm (by simp) fun sub hs => ?_
      cases hs
      exact .intro (by simp)
  have hgraph : graph.Finite := by
    refine .intro fun n hn => ?_
    rw [List.mem_singleton.mp hn]
    refine .intro (by simp) fun d hd => ?_
    cases hd
    refine .intro hwarm (fun ts hts => ?_) fun sub hs => ?_
    · cases hts
      simp
    · cases hs
      exact hinner
  exact ⟨hgraph, written_preserved.1.sorted graph hgraph, rfl, rfl⟩

end Workflow

import Workflow.Build.Builder
import Workflow.Proofs.Graph.Written
import Workflow.Proofs.Json.Range

/-!
# Specs that are written and read back

`read_survives`: a spec that was read of any JSON is written and read back without a change. Reading
tidies up, since it takes second names for fields, lists for structures and gaps for defaults; what
it gives is `Writable`, and a writable spec is reread as it is.
-/

namespace Workflow

open Record (Unambiguous)
open Workflow.Field (required_fills defaulted_fills nullable_fills orNamed_fills required_keeps
  defaulted_keeps orNamed_keeps)
open Codec (string_rereads strings_reread bool_rereads list_rereads optional_rereads json_rereads
  string_refusesNull bool_refusesNull gives_true list_gives optional_gives json_optional_gives Around Nesting)

mutual

/-- JSON has the node spec as it is, at every depth: positions are finite, free data is sorted, and
none of it is null, since null stands for none. -/
inductive NodeSpec.Writable : NodeSpec → Prop
  | intro {n : NodeSpec} : (∀ p, n.position = some p → p.Finite) →
      (∀ i, n.data = some i → i.IsSorted ∧ i ≠ .null) → (∀ sub, n.subflow = some sub → sub.Writable) →
      n.Writable

inductive LevelSpec.Writable : LevelSpec → Prop
  | intro {l : LevelSpec} : (∀ n ∈ l.nodes, n.Writable) → l.Writable

end

-- ---------------------------------------------------------------------------
-- What is read is writable
-- ---------------------------------------------------------------------------

theorem Position.gives : codec.Gives Finite := by
  refine Record.gives ⟨by decide, by decide⟩ ?_
  simp only [record, List.forall_mem_cons, List.not_mem_nil, false_imp_iff, implies_true, and_true]
  exact ⟨required_keeps Codec.float_gives fun _ _ hp hx => ⟨hx, hp.y⟩,
    required_keeps Codec.float_gives fun _ _ hp hy => ⟨hp.x, hy⟩⟩

section

variable {subflows : Codec LevelSpec}

/-- Nothing but the position, the data and the subflow of a node spec matters. -/
theorem NodeSpec.Writable.congr {n m : NodeSpec} (h : n.Writable) (hposition : m.position = n.position)
    (hdata : m.data = n.data) (hsubflow : m.subflow = n.subflow) : m.Writable := by
  obtain ⟨hp, hd, hs⟩ := h
  exact .intro (hposition ▸ hp) (hdata ▸ hd) (hsubflow ▸ hs)

theorem NodeSpec.gives (hsub : subflows.Gives LevelSpec.Writable) :
    (record subflows).codec.Gives Writable := by
  refine Record.gives (.intro nofun nofun nofun) ?_
  simp only [record, List.forall_mem_cons, List.not_mem_nil, false_imp_iff, implies_true, and_true]
  refine ⟨required_keeps gives_true fun _ _ hn _ => hn.congr rfl rfl rfl,
    required_keeps gives_true fun _ _ hn _ => hn.congr rfl rfl rfl,
    defaulted_keeps (optional_gives Position.gives) ?_,
    orNamed_keeps (defaulted_keeps gives_true fun _ _ hn _ => hn.congr rfl rfl rfl),
    defaulted_keeps gives_true fun _ _ hn _ => hn.congr rfl rfl rfl,
    defaulted_keeps gives_true fun _ _ hn _ => hn.congr rfl rfl rfl,
    defaulted_keeps json_optional_gives ?_, defaulted_keeps (optional_gives hsub) ?_⟩
  · rintro _ _ ⟨-, hd, hs⟩ hposition
    exact .intro hposition hd hs
  · rintro _ _ ⟨hp, -, hs⟩ hdata
    exact .intro hp hdata hs
  · rintro _ _ ⟨hp, hd, -⟩ hsubflow
    exact .intro hp hd hsubflow

theorem LevelSpec.gives (hsub : subflows.Gives Writable) : (record subflows).codec.Gives Writable := by
  refine Record.gives (.intro nofun) ?_
  simp only [record, List.forall_mem_cons, List.not_mem_nil, false_imp_iff, implies_true, and_true]
  refine ⟨defaulted_keeps (list_gives (NodeSpec.gives hsub)) fun _ _ _ hns => .intro hns,
    defaulted_keeps gives_true ?_⟩
  rintro _ _ ⟨hns⟩ -
  exact .intro hns

theorem WorkflowSpec.gives (hsub : subflows.Gives LevelSpec.Writable) :
    (record subflows).codec.Gives fun w => w.toLevelSpec.Writable := by
  refine Record.gives (.intro nofun) ?_
  simp only [record, List.forall_mem_cons, List.not_mem_nil, false_imp_iff, implies_true, and_true]
  refine ⟨defaulted_keeps (list_gives (NodeSpec.gives hsub)) fun _ _ _ hns => .intro hns,
    defaulted_keeps gives_true ?_, defaulted_keeps gives_true fun _ _ hw _ => hw⟩
  rintro _ _ ⟨hns⟩ -
  exact .intro hns

end

theorem LevelSpec.nested_gives (depth : Nat) : (nested depth).Gives Writable := by
  induction depth with
  | zero => exact fun _ _ _ h => nomatch h
  | succ depth ih => exact gives ih

theorem WorkflowSpec.codec_gives : codec.Gives fun w => w.toLevelSpec.Writable := by
  intro j w hj h
  have hread : (record (LevelSpec.nested (j.height + 1))).codec.read j = .ok w := h
  exact gives (LevelSpec.nested_gives _) hj hread

-- ---------------------------------------------------------------------------
-- Flat structures are reread
-- ---------------------------------------------------------------------------

theorem EdgeSpec.rereads (e : EdgeSpec) : codec.Rereads e e := by
  refine Record.rereads (fun seen => {
    id := if "id" ∈ seen then e.id else none
    source := if "source" ∈ seen then e.source else ""
    target := if "target" ∈ seen then e.target else ""
    label := if "label" ∈ seen then e.label else none
    animated := if "animated" ∈ seen then e.animated else false }) ?_ rfl ?_ fun seen h => ?_
  · simp [record, Unambiguous, Field.answersTo, Field.required, Field.nullable, Field.defaulted]
  · simp only [record, List.forall_mem_cons, List.not_mem_nil, false_imp_iff, implies_true, and_true]
    exact ⟨nullable_fills string_refusesNull (fun s _ => string_rereads s) (by simp),
      required_fills (string_rereads _) (by simp), required_fills (string_rereads _) (by simp),
      nullable_fills string_refusesNull (fun s _ => string_rereads s) (by simp),
      defaulted_fills (bool_rereads _) (by simp)⟩
  · simp [record, Field.required, Field.nullable, Field.defaulted] at h
    simp [h]

theorem PhaseSpec.rereads (p : PhaseSpec) : codec.Rereads p p := by
  refine Record.rereads (fun seen => {
    id := if "id" ∈ seen then p.id else ""
    name := if "name" ∈ seen then p.name else ""
    color := if "color" ∈ seen then p.color else ""
    nodeIds := if "nodeIds" ∈ seen then p.nodeIds else [] }) ?_ rfl ?_ fun seen h => ?_
  · simp [record, Unambiguous, Field.answersTo, Field.required, Field.defaulted, Field.orNamed]
  · simp only [record, List.forall_mem_cons, List.not_mem_nil, false_imp_iff, implies_true, and_true]
    exact ⟨required_fills (string_rereads _) (by simp), required_fills (string_rereads _) (by simp),
      defaulted_fills (string_rereads _) (by simp),
      orNamed_fills (defaulted_fills (strings_reread _) (by simp))⟩
  · simp [record, Field.required, Field.defaulted, Field.orNamed] at h
    simp [h]

-- ---------------------------------------------------------------------------
-- Structures around subflows are reread
-- ---------------------------------------------------------------------------

section

variable {subflows : Codec LevelSpec} {n : NodeSpec} {l : LevelSpec} {w : WorkflowSpec}

theorem NodeSpec.rereads (hn : n.Writable) (hnull : subflows.RefusesNull)
    (hsub : ∀ sub, n.subflow = some sub → subflows.Rereads sub sub) :
    (record subflows).codec.Rereads n n := by
  obtain ⟨hposition, hdata, -⟩ := hn
  refine Record.rereads (fun seen => {
    id := if "id" ∈ seen then n.id else ""
    kind := if "type" ∈ seen then n.kind else .task
    position := if "position" ∈ seen then n.position else none
    taskId := if "taskId" ∈ seen then n.taskId else none
    label := if "label" ∈ seen then n.label else none
    enabled := if "enabled" ∈ seen then n.enabled else none
    data := if "data" ∈ seen then n.data else none
    subflow := if "subflow" ∈ seen then n.subflow else none }) ?_ rfl ?_ fun seen h => ?_
  · simp [record, Unambiguous, Field.answersTo, Field.required, Field.nullable, Field.defaulted,
      Field.orNamed]
  · simp only [record, List.forall_mem_cons, List.not_mem_nil, false_imp_iff, implies_true, and_true]
    exact ⟨required_fills (string_rereads _) (by simp), required_fills (NodeKind.rereads _) (by simp),
      nullable_fills (Record.refusesNull _) (fun p hp => Position.rereads (hposition p hp)) (by simp),
      orNamed_fills (nullable_fills string_refusesNull (fun s _ => string_rereads s) (by simp)),
      nullable_fills string_refusesNull (fun s _ => string_rereads s) (by simp),
      nullable_fills bool_refusesNull (fun b _ => bool_rereads b) (by simp),
      -- free data may be null, so here it matters what the data is
      defaulted_fills (optional_rereads fun i hi => ⟨(hdata i hi).2, json_rereads (hdata i hi).1⟩)
        (by simp),
      nullable_fills hnull hsub (by simp)⟩
  · simp [record, Field.required, Field.nullable, Field.defaulted, Field.orNamed] at h
    cases n
    simp [h]

theorem LevelSpec.rereads (hn : ∀ n ∈ l.nodes, (NodeSpec.record subflows).codec.Rereads n n) :
    (record subflows).codec.Rereads l l := by
  refine Record.rereads (fun seen => {
    nodes := if "nodes" ∈ seen then l.nodes else []
    edges := if "edges" ∈ seen then l.edges else [] }) ?_ rfl ?_ fun seen h => ?_
  · simp [record, Unambiguous, Field.answersTo, Field.defaulted]
  · simp only [record, List.forall_mem_cons, List.not_mem_nil, false_imp_iff, implies_true, and_true]
    exact ⟨defaulted_fills (list_rereads hn) (by simp),
      defaulted_fills (list_rereads fun e _ => EdgeSpec.rereads e) (by simp)⟩
  · simp [record, Field.defaulted] at h
    cases l
    simp [h]

theorem WorkflowSpec.rereads (hn : ∀ n ∈ w.nodes, (NodeSpec.record subflows).codec.Rereads n n) :
    (record subflows).codec.Rereads w w := by
  refine Record.rereads (fun seen => {
    nodes := if "nodes" ∈ seen then w.nodes else []
    edges := if "edges" ∈ seen then w.edges else []
    phases := if "phases" ∈ seen then w.phases else [] }) ?_ rfl ?_ fun seen h => ?_
  · simp [record, Unambiguous, Field.answersTo, Field.defaulted]
  · simp only [record, List.forall_mem_cons, List.not_mem_nil, false_imp_iff, implies_true, and_true]
    exact ⟨defaulted_fills (list_rereads hn) (by simp),
      defaulted_fills (list_rereads fun e _ => EdgeSpec.rereads e) (by simp),
      defaulted_fills (list_rereads fun p _ => PhaseSpec.rereads p) (by simp)⟩
  · simp [record, Field.defaulted] at h
    obtain ⟨⟨nodes, edges⟩, phases⟩ := w
    simp [h]

end

-- ---------------------------------------------------------------------------
-- Any depth
-- ---------------------------------------------------------------------------

section

variable {n : NodeSpec} {ns : List NodeSpec} {l sub : LevelSpec} {w : WorkflowSpec} {depth : Nat}

theorem NodeSpec.around : Around (fun c => (record c).codec) (fun n sub => n.subflow = some sub) where
  write_congr {c c' n} h := by
    have hsub : c.optional.write n.subflow = c'.optional.write n.subflow := by
      cases hs : n.subflow with
      | none => rfl
      | some sub => exact h sub hs
    refine Record.write_congr ?_
    simpa [record, Field.required, Field.nullable, Field.defaulted, Field.orNamed] using hsub
  height_lt {c n sub} hs := Record.height_lt (k := "subflow") (by
    simp [Record.mem_written, record, Field.required, Field.nullable, Field.defaulted, Field.orNamed,
      hs, Codec.optional])

theorem LevelSpec.around :
    Around (fun c => (record c).codec) (fun l sub => ∃ n ∈ l.nodes, n.subflow = some sub) where
  write_congr h := Record.write_congr (by
    simpa [record, Field.defaulted] using NodeSpec.around.list.write_congr h)
  height_lt hs := Nat.lt_trans (NodeSpec.around.list.height_lt hs) (Record.height_lt (k := "nodes")
    (by simp [Record.mem_written, record, Field.defaulted]))

theorem WorkflowSpec.around :
    Around (fun c => (record c).codec) (fun w sub => ∃ n ∈ w.nodes, n.subflow = some sub) where
  write_congr h := Record.write_congr (by
    simpa [record, Field.defaulted] using NodeSpec.around.list.write_congr h)
  height_lt hs := Nat.lt_trans (NodeSpec.around.list.height_lt hs) (Record.height_lt (k := "nodes")
    (by simp [Record.mem_written, record, Field.defaulted]))

theorem LevelSpec.heightNodes_le : heightNodes ns ≤ depth ↔
    ∀ n ∈ ns, ∀ sub, n.subflow = some sub → sub.height ≤ depth := by
  induction ns with
  | nil => simp [heightNodes]
  | cons n ns ih =>
    rw [List.forall_mem_cons, ← ih]
    obtain ⟨_, _, _, _, _, _, _, _ | sub⟩ := n <;> simp [heightNodes]

theorem LevelSpec.height_le : l.height ≤ depth + 1 ↔
    ∀ sub, (∃ n ∈ l.nodes, n.subflow = some sub) → sub.height ≤ depth := by
  cases l
  rw [height, Nat.add_le_add_iff_right, heightNodes_le]
  exact ⟨fun h sub ⟨n, hn, hs⟩ => h n hn sub hs, fun h n hn sub hs => h sub ⟨n, hn, hs⟩⟩

theorem LevelSpec.nesting :
    Nesting (fun c => (record c).codec) nested (fun l sub => ∃ n ∈ l.nodes, n.subflow = some sub)
      height where
  around := LevelSpec.around
  nested_succ _ := rfl
  refusesNull depth _ h := by cases depth <;> cases h
  height_pos l := by
    cases l
    simp [height]
  height_le := height_le

theorem NodeSpec.Writable.subflow (h : n.Writable) (hs : n.subflow = some sub) : sub.Writable := by
  obtain ⟨-, -, h⟩ := h
  exact h sub hs

theorem LevelSpec.Writable.node (h : l.Writable) (hn : n ∈ l.nodes) : n.Writable := by
  obtain ⟨h⟩ := h
  exact h n hn

theorem LevelSpec.nested_rereads (hl : l.Writable) (h : l.height ≤ depth) :
    (nested depth).Rereads l l := by
  change (nested depth).Rereads l (id l)
  refine nesting.rereads (fun hl ⟨n, hn, hs⟩ => (hl.node hn).subflow hs) ?_ hl h
  intro c l hl hnull hsub
  exact rereads fun n hn => NodeSpec.rereads (hl.node hn) hnull fun sub hs => hsub sub ⟨n, hn, hs⟩

/-- A writable spec is what is read of its JSON. -/
theorem WorkflowSpec.codec_rereads (hw : w.toLevelSpec.Writable) : codec.Rereads w w := by
  refine LevelSpec.nesting.around_rereads around
    (fun h => LevelSpec.height_le.mp (Nat.le_succ_of_le h)) LevelSpec.height_le.mpr fun {depth} h => ?_
  refine rereads fun n hn =>
    NodeSpec.rereads (hw.node hn) (LevelSpec.nesting.refusesNull depth) fun sub hs => ?_
  exact LevelSpec.nested_rereads ((hw.node hn).subflow hs) (h sub ⟨n, hn, hs⟩)

end

/-- A spec that was read of any JSON survives being written and read back, in whatever order the
fields are put then: it is the same spec, it is written the same once more, and it builds the same
graph or meets the same defect. -/
theorem WorkflowSpec.read_survives {j : Json} {w : WorkflowSpec} (hj : j.InRange)
    (hread : codec.read j = .ok w) :
    codec.read (codec.write w) = .ok w ∧ codec.read (codec.write w).canonical = .ok w ∧
    ∀ i, (codec.write w).Reordered i →
      codec.read i = .ok w ∧ (codec.read i).map codec.write = .ok (codec.write w) ∧
      ∀ lookup layout,
        (codec.read i).map (·.buildWith lookup layout) = .ok (w.buildWith lookup layout) := by
  have hw : codec.Rereads w w := codec_rereads (codec_gives hj hread)
  refine ⟨hw.direct, hw.sorted, fun i hi => ?_⟩
  have hback : codec.read i = .ok w := hw.read hi
  exact ⟨hback, by rw [hback]; rfl, fun lookup layout => by rw [hback]; rfl⟩

theorem WorkflowSpec.read_survives_untidy :
    let inner : Json := .arr [.arr [.obj [
      ("data", .null), ("position", .obj [("y", .float 0.5), ("x", .int (-3))]), ("id", .str "b"),
      ("type", .obj [("decision", .null)])]]]
    let j : Json := .obj [
      ("phases", .arr [.obj [("nodes", .arr [.str "a"]), ("name", .str ""), ("id", .str "p")]]),
      ("nodes", .arr [.obj [
        ("task", .str "t"), ("id", .str "a"), ("type", .str "task"),
        ("position", .arr [.int 1, .int 18446744073709551615]),
        ("data", .obj [("name", .null), ("config", .arr [.obj [("b", .int 1), ("a", .null)]])]),
        ("subflow", inner)]])]
    let w : WorkflowSpec := {
      nodes := [{
        id := "a", kind := .task, taskId := some "t"
        position := some ⟨Float.ofInt 1, Float.ofInt 18446744073709551615⟩
        data := some (.obj [("config", .arr [.obj [("a", .null), ("b", .int 1)]]), ("name", .null)])
        subflow := some { nodes := [{
          id := "b", kind := .decision, position := some ⟨Float.ofInt (-3), 0.5⟩ }] } }]
      phases := [{ id := "p", name := "", nodeIds := ["a"] }] }
    j.InRange ∧ codec.read j = .ok w ∧ codec.read (codec.write w).canonical = .ok w := by
  intro inner j w
  have hj : j.InRange := by
    simp [j, inner, Json.InRange, Json.FieldsInRange, Json.ItemsInRange]
    decide
  have hread : codec.read j = .ok w := by rfl
  exact ⟨hj, hread, (read_survives hj hread).2.1⟩

end Workflow

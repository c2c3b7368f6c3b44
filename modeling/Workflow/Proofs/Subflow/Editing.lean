import Workflow.Proofs.Sound.Edit
import Workflow.Proofs.Subflow.View

/-!
# Views under edits

Whoever edits a view adds tasks, connects and merges nodes as on any level, and removes nodes by the
removal that spares boundaries. Merges never ask for boundaries: they leave them alone because a
boundary has no data, so that a merge can neither begin with it nor find it unchanged.
-/

namespace Workflow

/-- What is done to a view. The removal of any node whatever is not offered. -/
inductive ViewStep (σ : Type)
  | command (c : Command σ) (spares : ∀ id, c ≠ .remove id)
  | removeInterior (id : String)

structure Editing (σ : Type) where
  view : Level
  desk : Desk σ

variable {σ : Type}

def ViewStep.edit (d : Desk σ) (view : Level) : ViewStep σ → Edited (Desk σ)
  | command c _ => (c.edit d view).map (·.2)
  | removeInterior id => (Level.removeInterior id view).map fun _ => d

namespace Editing

def step (e : Editing σ) (s : ViewStep σ) : Editing σ :=
  let edited := s.edit e.desk e.view
  ⟨edited.level, edited.result⟩

def run (e : Editing σ) (steps : List (ViewStep σ)) : Editing σ := steps.foldl step e

end Editing

/-- A well-formed node that has no data if it is a boundary. -/
structure Node.Proper (n : Node) : Prop extends n.Valid where
  boundary : n.kind.isBoundary → n.data = none

variable {n : Node} {ns : List Node} {l l' : Level} {d : Desk σ} {id : String} {kind : NodeKind}
variable {dep : Option Departure} {e : Posting} {c : Command σ} {r : Merge.Resolved}

theorem Node.mapData_bare {f : TaskData → TaskData} (h : n.data = none) : n.mapData f = n := by
  cases n
  simp_all [mapData]

theorem Boundary.toNode_proper {b : Boundary} {taken : List String} (hb : b.kind.isBoundary) :
    (b.toNode taken).Proper where
  task hk := by
    have hk : b.kind = .task := hk
    simp [hk, NodeKind.isBoundary] at hb
  inside _ hs := by cases hs
  boundary _ := rfl

namespace Merge

variable {a : String} {t : Task} {ts : List Task}

@[simp] theorem takeOver_kind (n : Node) : (takeOver a t ts n).kind = n.kind := by
  unfold takeOver
  split <;> rfl

theorem takeOver_bare (h : n.data = none) : takeOver a t ts n = n := by
  unfold takeOver
  split
  · exact Node.mapData_bare h
  · rfl

end Merge

-- ---------------------------------------------------------------------------
-- Edits that leave the boundaries alone
-- ---------------------------------------------------------------------------

/-- The level has proper nodes and the boundaries of another one. -/
structure Level.Frames (bs : List Node) (l : Level) : Prop where
  proper : l.ConsistsOf Node.Proper
  boundaries : l.boundaries = bs

namespace Level

theorem ofKind_boundaries (h : kind.isBoundary) :
    l.ofKind kind = l.boundaries.filter (·.kind = kind) := by
  rw [ofKind, boundaries, List.filter_filter]
  exact List.filter_congr fun n _ => by
    by_cases hn : n.kind = kind <;> simp [hn, h]

theorem filter_mapFirst {p : Node → Bool} {f : Node → Node} (hp : ∀ n, p (f n) = p n)
    (hf : ∀ n ∈ ns, p n → f n = n) : (mapFirst id f ns).filter p = ns.filter p := by
  induction ns with
  | nil => rfl
  | cons n ns ih =>
    simp only [mapFirst]
    split
    · by_cases hn : p n
      · simp [hf n List.mem_cons_self hn]
      · simp [hp, hn]
    · rw [List.filter_cons, List.filter_cons, ih fun m hm => hf m (List.mem_cons_of_mem _ hm)]

variable {bs : List Node}

theorem Frames.addTask {task : Task} {position : Option Position} (h : l.Frames bs)
    (hid : id ∉ l.nodeIds) : Frames bs { l with nodes := l.nodes ++ [.ofTask id task position] } where
  proper := by
    refine h.proper.insert ⟨⟨fun _ => rfl, fun _ hs => ?_⟩, fun hk => ?_⟩ hid List.perm_append_comm
    · cases hs
    · cases hk
  boundaries := by
    rw [← h.boundaries]
    simp [Level.boundaries, Node.ofTask, NodeKind.isBoundary]

theorem Frames.connect {e : Edge} (h : l.Frames bs) (he : e.Within l.nodeIds) :
    Frames bs { l with edges := l.edges ++ [e] } where
  proper := by
    refine ⟨h.proper.ids, h.proper.nodes, fun e' he' => ?_⟩
    rcases List.mem_append.mp he' with he' | he'
    · exact h.proper.edges e' he'
    · obtain rfl := List.mem_singleton.mp he'
      exact he
  boundaries := h.boundaries

theorem Frames.setFlag {flag : Bool} (h : l.Frames bs) : Frames bs (Merge.setFlag flag id l) where
  proper := by
    refine h.proper.mapNode (fun _ hid => hid) fun n hn _ => ?_
    have hproper := h.proper.nodes n hn
    refine ⟨⟨fun hk => ?_, fun sub hs => hproper.inside sub ?_⟩, fun hk => ?_⟩
    · simpa [Node.carriesTask] using hproper.task hk
    · cases hd : n.data <;> simp_all [Node.subflow]
    · simpa using hproper.boundary hk
  boundaries := by
    rw [← h.boundaries]
    exact filter_mapFirst (fun _ => rfl) fun n hn hk =>
      Node.mapData_bare ((h.proper.nodes n hn).boundary hk)

/-- A node with data is no boundary, so taking it out leaves the boundaries. -/
theorem Frames.inner_of_data {x : TaskData} (h : l.Frames bs) (hd : l.data? id = some x)
    (hn : n ∈ l.nodes) (hk : n.kind.isBoundary) : n.id ≠ id := by
  rintro rfl
  obtain ⟨m, hm, hx⟩ := data?_eq_some.mp hd
  obtain rfl : n = m := Option.some.inj ((node?_of_mem h.proper.ids hn).symm.trans hm)
  rw [(h.proper.nodes n hn).boundary hk] at hx
  cases hx

theorem Frames.stage (h : l.Frames bs) (hs : Merge.stage r l = .ok l') : Frames bs l' := by
  obtain ⟨-, hd, rfl, hv⟩ := Merge.stage_ok.mp hs
  obtain ⟨x, hx, -⟩ := Merge.unchanged_iff.mp hd
  obtain ⟨hids, hnodes, hedges⟩ := valid_iff.mp (validate_ok.mp hv)
  have hbare : ∀ n ∈ l.nodes, n.kind.isBoundary →
      Merge.takeOver r.target r.task r.sources n = n := fun n hn hk =>
    Merge.takeOver_bare ((h.proper.nodes n hn).boundary hk)
  constructor
  · refine ⟨hids, fun m hm => ⟨hnodes m hm, fun hk => ?_⟩, hedges⟩
    obtain ⟨n, hn, rfl⟩ := List.mem_map.mp hm
    have hn := List.mem_of_mem_filter hn
    rw [Merge.takeOver_kind] at hk
    rw [hbare n hn hk]
    exact (h.proper.nodes n hn).boundary hk
  · calc (Merge.quotient r.target r.dropped r.task r.sources l).boundaries
      _ = ((l.nodes.filter (·.id ≠ r.dropped)).filter (·.kind.isBoundary)).map
            (Merge.takeOver r.target r.task r.sources) := by
          simp [Level.boundaries, Merge.quotient, List.filter_map, Function.comp_def, Merge.takeOver_kind]
      _ = l.boundaries.map (Merge.takeOver r.target r.task r.sources) := by
          rw [List.filter_filter, Level.boundaries]
          refine congrArg _ (List.filter_congr fun n hn => ?_)
          by_cases hk : n.kind.isBoundary
          · simp [hk, h.inner_of_data hx hn hk]
          · simp [hk]
      _ = l.boundaries := by
          refine List.map_congr_left (g := id) (fun n hn => ?_) |>.trans (List.map_id _)
          obtain ⟨hn, hk⟩ := List.mem_filter.mp hn
          exact hbare n hn hk
      _ = bs := h.boundaries

theorem Frames.removeInterior (h : l.Frames bs) (id : String) :
    Frames bs (Level.removeInterior id l).level := by
  unfold Level.removeInterior
  split
  · exact h
  rename_i hinner
  unfold Level.remove
  split
  · exact h
  rename_i n hn
  have hinner : n.kind.isBoundary = false := by simpa [hn] using hinner
  refine ⟨h.proper.remove id, ?_⟩
  show (eraseFirst id l.nodes).filter (·.kind.isBoundary) = bs
  rw [eraseFirst_eq_filter h.proper.ids, List.filter_filter, ← h.boundaries, Level.boundaries]
  refine List.filter_congr fun m hm => ?_
  by_cases hk : m.kind.isBoundary
  · have hne : m.id ≠ id := by
      rintro rfl
      obtain rfl : m = n := Option.some.inj ((node?_of_mem h.proper.ids hm).symm.trans hn)
      simp [hk] at hinner
    simp [hk, hne]
  · simp [hk]

end Level

-- ---------------------------------------------------------------------------
-- One step
-- ---------------------------------------------------------------------------

theorem Command.removes_of_taken (h : c.posting (c.edit d l).result.1 = .taken n) :
    ∃ id, c = .remove id := by
  have hanswer : (c.edit d l).result.1 = .removed (.ok n) := by
    unfold posting at h
    split at h <;> simp_all
  cases c with
  | remove id => exact ⟨id, rfl⟩
  | resolve c k | commit c k | abort k =>
    simp only [edit] at hanswer
    split at hanswer <;> cases hanswer
  | addTask | connect | start | combine => cases hanswer

variable {bs : List Node}

theorem Effect.frames (he : Effect d l l' dep e) (h : l.Frames bs)
    (hfresh : ∀ id task, e = .brought id task → id ∉ l.nodeIds) (hnone : ∀ n, e ≠ .taken n) :
    l'.Frames bs := by
  cases he with
  | kept => exact h
  | added id task position => exact h.addTask (hfresh _ _ rfl)
  | connected e hw => exact h.connect hw
  | removed hn => exact absurd rfl (hnone _)
  | flagged flag id => exact h.setFlag
  | merged _ hs => exact h.stage hs

namespace Editing

/-- The view has the given boundaries, and new ids are new. -/
structure Intact (bs : List Node) (e : Editing σ) : Prop where
  view : e.view.Frames bs
  tokens : Function.Injective e.desk.tokens.token
  orderly : e.desk.Orderly

variable {e : Editing σ}

theorem Intact.step (h : e.Intact bs) (s : ViewStep σ) : (e.step s).Intact bs := by
  cases s with
  | command c hc =>
    refine ⟨?_, ?_, Command.orderly_edit h.orderly⟩
    · refine (Command.effect_edit h.orderly c).frames h.view
        (fun _ _ => Command.brought_free h.tokens) fun n ht => ?_
      obtain ⟨id, rfl⟩ := Command.removes_of_taken ht
      exact hc id rfl
    · show Function.Injective (c.edit e.desk e.view).result.2.tokens.token
      rw [Command.token_edit]
      exact h.tokens
  | removeInterior id => exact ⟨h.view.removeInterior id, h.tokens, h.orderly⟩

theorem Intact.run (h : e.Intact bs) (steps : List (ViewStep σ)) : (e.run steps).Intact bs := by
  induction steps generalizing e with
  | nil => exact h
  | cons s steps ih => exact ih (h.step s)

theorem start_intact {stored : Option Level} {d : Desk σ}
    (hvalid : ∀ l ∈ stored, l.validate = .ok ())
    (hbare : ∀ l ∈ stored, ∀ n ∈ l.nodes, n.kind.isBoundary → n.data = none)
    (htokens : Function.Injective d.tokens.token) (hd : d.Orderly) :
    Intact (Level.editingView stored).boundaries ⟨Level.editingView stored, d⟩ := by
  refine ⟨⟨.editingView (fun b taken => Boundary.toNode_proper) ?_, rfl⟩, htokens, hd⟩
  cases stored with
  | none => exact ⟨.nil, by simp, by simp⟩
  | some l =>
    obtain ⟨hids, hnodes, hedges⟩ := Level.valid_iff.mp (Level.validate_ok.mp (hvalid l rfl))
    exact ⟨hids, fun n hn => ⟨hnodes n hn, hbare l rfl n hn⟩, hedges⟩

theorem view_keeps_boundaries {stored : Option Level} {d : Desk σ}
    (hvalid : ∀ l ∈ stored, l.validate = .ok ())
    (hbare : ∀ l ∈ stored, ∀ n ∈ l.nodes, n.kind.isBoundary → n.data = none)
    (htokens : Function.Injective d.tokens.token) (hd : d.Orderly) :
    ∃ entry exit, ∀ steps,
      let view := (run ⟨Level.editingView stored, d⟩ steps).view
      view.ofKind .input = [entry] ∧ view.ofKind .output = [exit] ∧ view.validate = .ok () ∧
        view.interior.validate = .ok () ∧ ∀ n ∈ view.interior.nodes, n.kind.isBoundary = false := by
  obtain ⟨entry, hentry⟩ := Level.editingView_entry stored
  obtain ⟨exit, hexit⟩ := Level.editingView_exit stored
  refine ⟨entry, exit, fun steps => ?_⟩
  have hview := ((start_intact hvalid hbare htokens hd).run steps).view
  have hvalid := hview.proper.mono fun _ hn => hn.toValid
  refine ⟨?_, ?_, Level.validate_ok.mpr (Level.valid_iff.mpr hvalid),
    Level.validate_ok.mpr (Level.valid_iff.mpr hvalid.interior), fun _ => Level.interior_inner⟩
  · rw [Level.ofKind_boundaries rfl, hview.boundaries, ← Level.ofKind_boundaries rfl, hentry]
  · rw [Level.ofKind_boundaries rfl, hview.boundaries, ← Level.ofKind_boundaries rfl, hexit]

/-- Two tasks behind an entry; the exit is added by the view. -/
def chain : Level where
  nodes := [{ id := "in", kind := .input }, .ofTask "a" { id := "t1", name := "A" } none,
    .ofTask "b" { id := "t2", name := "B" } none]
  edges := [⟨"1", "in", "b", none, false⟩, ⟨"2", "b", "a", none, false⟩]

/-- A merge re-points an edge of the entry while boundaries are removed and merged in vain. -/
def chainSteps (setting : Merge.Setting MemoryStore) : List (ViewStep MemoryStore) :=
  [.command (.addTask { id := "t3", name := "C" } none) nofun,
    .command (.connect "a" "subflow-output") nofun, .command (.start "a" "b") nofun,
    .removeInterior "in", .command (.resolve setting 0) nofun, .command (.commit setting 0) nofun,
    .command (.combine setting "a" "in") nofun, .removeInterior "task-0"]

theorem view_keeps_boundaries_chain :
    ∃ (setting : Merge.Setting MemoryStore) (desk : Desk MemoryStore) (entry exit : Node),
      let view := (run ⟨Level.editingView (some chain), desk⟩ (chainSteps setting)).view
      view.nodeIds = ["in", "a", "subflow-output"] ∧ view.ofKind .input = [entry] ∧
        view.ofKind .output = [exit] ∧ view.validate = .ok () ∧ view.interior.validate = .ok () := by
  let desk : Desk MemoryStore := { tokens := { token := toString }, store := {} }
  let setting : Merge.Setting MemoryStore := { append := MemoryStore.put }
  have htokens : Function.Injective desk.tokens.token := fun _ _ h => Nat.repr_injective h
  have hvalid : ∀ l ∈ some chain, l.validate = .ok () := by
    rintro _ ⟨⟩
    rfl
  have hbare : ∀ l ∈ some chain, ∀ n ∈ l.nodes, n.kind.isBoundary → n.data = none := by
    rintro _ ⟨⟩
    simp [chain, Node.ofTask, NodeKind.isBoundary]
  obtain ⟨entry, exit, h⟩ := view_keeps_boundaries hvalid hbare htokens (d := desk) (by simp [Desk.Orderly, desk])
  obtain ⟨hentry, hexit, hview, hinterior, -⟩ := h (chainSteps setting)
  have hids : (run ⟨Level.editingView (some chain), desk⟩ (chainSteps setting)).view.nodeIds =
      ["in", "a", "subflow-output"] := by decide +kernel
  exact ⟨setting, desk, entry, exit, hids, hentry, hexit, hview, hinterior⟩

end Editing

end Workflow

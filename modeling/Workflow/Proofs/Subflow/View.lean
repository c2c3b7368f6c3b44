import Workflow.Proofs.Graph.Fresh
import Workflow.Proofs.Graph.Valid
import Workflow.Subflow

/-!
# Opening and keeping subflows

A view has one boundary of each kind around the interior of what is stored. Keeping it takes the
boundaries off again with every edge at them, so opening and keeping lose nothing but boundaries.
-/

namespace Workflow

variable {kind kind' : NodeKind} {ns : List Node} {n n' : Node} {l view : Level} {b : Boundary}
variable {taken : List String} {id : String} {stored : Option Level} {N : Node → Prop}

theorem Boundary.toNode_free : (b.toNode taken).id ∉ taken := freeId_free

namespace Level

-- ---------------------------------------------------------------------------
-- The first node of a kind
-- ---------------------------------------------------------------------------

def ofKind (kind : NodeKind) (l : Level) : List Node :=
  l.nodes.filter (·.kind = kind)

theorem keepFirst_sublist : (keepFirst kind ns).Sublist ns := by
  induction ns with
  | nil => exact .slnil
  | cons n ns ih =>
    simp only [keepFirst]
    split
    · exact List.filter_sublist.cons_cons n
    · exact ih.cons_cons n

/-- A node that is not kept is one too many of its kind. -/
theorem mem_keepFirst (kind : NodeKind) (hn : n ∈ ns) : n ∈ keepFirst kind ns ∨ n ∈ surplus kind ns := by
  induction ns with
  | nil => cases hn
  | cons m ns ih =>
    simp only [keepFirst, surplus]
    by_cases hk : m.kind = kind
    · simp only [hk, if_true, List.filter_cons_of_pos, decide_true, List.drop_one, List.tail_cons]
      rcases List.mem_cons.mp hn with rfl | hn
      · exact .inl List.mem_cons_self
      · by_cases hnk : n.kind = kind
        · exact .inr (List.mem_filter.mpr ⟨hn, by simpa using hnk⟩)
        · exact .inl (List.mem_cons_of_mem _ (List.mem_filter.mpr ⟨hn, by simpa using hnk⟩))
    · rw [if_neg hk, List.filter_cons_of_neg (by simpa using hk)]
      rcases List.mem_cons.mp hn with rfl | hn
      · exact .inl List.mem_cons_self
      · exact (ih hn).imp_left (List.mem_cons_of_mem _)

/-- Keeping the first node of a kind does not touch nodes of other kinds. -/
theorem filter_keepFirst {p : Node → Bool} (hp : ∀ n, n.kind = kind → p n = false) :
    (keepFirst kind ns).filter p = ns.filter p := by
  induction ns with
  | nil => rfl
  | cons n ns ih =>
    simp only [keepFirst]
    split
    · have hrest : (ns.filter (·.kind ≠ kind)).filter p = ns.filter p := by
        rw [List.filter_filter]
        refine List.filter_congr fun m _ => ?_
        by_cases hm : m.kind = kind <;> simp [hm, hp]
      rw [List.filter_cons, List.filter_cons, hrest]
    · rw [List.filter_cons, List.filter_cons, ih]

theorem filter_kind_keepFirst :
    (keepFirst kind ns).filter (·.kind = kind) = (ns.filter (·.kind = kind)).take 1 := by
  induction ns with
  | nil => rfl
  | cons n ns ih =>
    simp only [keepFirst]
    split <;> simp_all [List.filter_filter]

theorem surplus_keepFirst (h : kind ≠ kind') : surplus kind' (keepFirst kind ns) = surplus kind' ns := by
  rw [surplus, filter_keepFirst (by simp_all), surplus]

theorem keepFirst_of_single (h : (ns.filter (·.kind = kind)).length ≤ 1) : keepFirst kind ns = ns := by
  induction ns with
  | nil => rfl
  | cons n ns ih =>
    simp only [keepFirst]
    split
    · simp_all [List.filter_eq_nil_iff, List.filter_eq_self]
    · rw [ih (by simp_all)]

-- ---------------------------------------------------------------------------
-- Views have one boundary of each kind
-- ---------------------------------------------------------------------------

theorem ofKind_dropSurplus (h : kind.isBoundary) :
    l.dropSurplus.ofKind kind = (l.ofKind kind).take 1 := by
  cases kind with
  | input =>
    show (keepFirst .output (keepFirst .input l.nodes)).filter (·.kind = .input) = _
    rw [filter_keepFirst (by simp_all), filter_kind_keepFirst, ofKind]
  | output =>
    show (keepFirst .output (keepFirst .input l.nodes)).filter (·.kind = .output) = _
    rw [filter_kind_keepFirst, filter_keepFirst (by simp_all), ofKind]
  | task | decision => cases h

theorem hasKind_iff : l.hasKind kind = true ↔ l.ofKind kind ≠ [] := by
  simp [hasKind, ofKind, List.filter_eq_nil_iff]

/-- The boundary of a level, or the one that is added where it has none. -/
theorem ofKind_addEntry : l.addEntry.ofKind .input =
    if l.ofKind .input = [] then [Boundary.entry.toNode l.nodeIds] else l.ofKind .input := by
  unfold addEntry
  split
  · rename_i h
    rw [if_neg (hasKind_iff.mp h)]
  · rename_i h
    have hnone : l.ofKind .input = [] := by simpa [hasKind_iff] using h
    rw [if_pos hnone]
    simpa [ofKind, Boundary.toNode, Boundary.entry] using hnone

theorem ofKind_addExit : l.addExit.ofKind .output =
    if l.ofKind .output = [] then [Boundary.exit.toNode l.nodeIds] else l.ofKind .output := by
  unfold addExit
  split
  · rename_i h
    rw [if_neg (hasKind_iff.mp h)]
  · rename_i h
    have hnone : l.ofKind .output = [] := by simpa [hasKind_iff] using h
    rw [if_pos hnone]
    simpa [ofKind, Boundary.toNode, Boundary.exit] using hnone

theorem ofKind_addEntry_output : l.addEntry.ofKind .output = l.ofKind .output := by
  unfold addEntry
  split
  · rfl
  · simp [ofKind, Boundary.toNode, Boundary.entry]

theorem ofKind_addExit_input : l.addExit.ofKind .input = l.ofKind .input := by
  unfold addExit
  split
  · rfl
  · simp [ofKind, Boundary.toNode, Boundary.exit]

theorem editingView_entry (stored : Option Level) :
    ∃ entry, (editingView stored).ofKind .input = [entry] := by
  rw [editingView, ofKind_addExit_input, ofKind_addEntry]
  split
  · exact ⟨_, rfl⟩
  · rename_i h
    rw [ofKind_dropSurplus rfl] at h ⊢
    cases hk : (stored.getD {}).ofKind .input <;> simp_all

theorem editingView_exit (stored : Option Level) :
    ∃ exit, (editingView stored).ofKind .output = [exit] := by
  rw [editingView, ofKind_addExit, ofKind_addEntry_output]
  split
  · exact ⟨_, rfl⟩
  · rename_i h
    rw [ofKind_dropSurplus rfl] at h ⊢
    cases hk : (stored.getD {}).ofKind .output <;> simp_all

/-- What is added to a stored subflow to make a view of it. -/
structure Added (kept : Level) (n : Node) : Prop where
  boundary : n.kind.isBoundary
  bare : n.data = none
  free : n.id ∉ kept.nodeIds

theorem added_toNode (hb : b.kind.isBoundary) : Added l (b.toNode l.nodeIds) :=
  ⟨hb, rfl, Boundary.toNode_free⟩

theorem addEntry_nodes (l : Level) :
    ∃ before, l.addEntry.nodes = before ++ l.nodes ∧ ∀ n ∈ before, Added l n := by
  unfold addEntry
  split
  · exact ⟨[], rfl, by simp⟩
  · exact ⟨[_], rfl, by simpa using added_toNode rfl⟩

theorem addExit_nodes (l : Level) :
    ∃ after, l.addExit.nodes = l.nodes ++ after ∧ ∀ n ∈ after, Added l n := by
  unfold addExit
  split
  · exact ⟨[], by simp, by simp⟩
  · exact ⟨[_], rfl, by simpa using added_toNode rfl⟩

theorem editingView_nodes (stored : Option Level) :
    ∃ before after, (editingView stored).nodes =
        before ++ (stored.getD {}).dropSurplus.nodes ++ after ∧
      ∀ n ∈ before ++ after, Added (stored.getD {}).dropSurplus n := by
  obtain ⟨before, hb, hbefore⟩ := addEntry_nodes (stored.getD {}).dropSurplus
  obtain ⟨after, ha, hafter⟩ := addExit_nodes (stored.getD {}).dropSurplus.addEntry
  refine ⟨before, after, by rw [editingView, ha, hb], fun n hn => ?_⟩
  rcases List.mem_append.mp hn with hn | hn
  · exact hbefore n hn
  · have h := hafter n hn
    refine ⟨h.boundary, h.bare, fun hid => h.free ?_⟩
    rw [nodeIds, hb, List.map_append]
    exact List.mem_append_right _ hid

theorem editingView_edges (stored : Option Level) :
    (editingView stored).edges = (stored.getD {}).dropSurplus.edges := by
  unfold editingView addExit addEntry
  split <;> split <;> rfl

/-- A view of a view is the view itself. -/
theorem editingView_editingView (stored : Option Level) :
    editingView (some (editingView stored)) = editingView stored := by
  obtain ⟨entry, hentry⟩ := editingView_entry stored
  obtain ⟨exit, hexit⟩ := editingView_exit stored
  generalize editingView stored = view at *
  have hkept : view.dropSurplus = view := by
    obtain ⟨nodes, edges⟩ := view
    simp only [ofKind] at hentry hexit
    simp [dropSurplus, surplus, keepFirst_of_single, hentry, hexit, touchesAny]
  show view.dropSurplus.addEntry.addExit = view
  rw [hkept, addEntry, if_pos (hasKind_iff.mpr (by simp [hentry])), addExit,
    if_pos (hasKind_iff.mpr (by simp [hexit]))]

-- ---------------------------------------------------------------------------
-- Interiors
-- ---------------------------------------------------------------------------

def boundaries (l : Level) : List Node := l.nodes.filter (·.kind.isBoundary)

def boundaryIds (l : Level) : List String := l.boundaries.map (·.id)

def surplusIds (l : Level) : List String :=
  (surplus .input l.nodes ++ surplus .output l.nodes).map (·.id)

theorem interior_nodes : l.interior.nodes = l.nodes.filter (!·.kind.isBoundary) := rfl

theorem interior_edges : l.interior.edges = l.edges.filter (!touchesAny l.boundaryIds ·) := rfl

theorem touchesAny_iff {ids : List String} {e : Edge} :
    touchesAny ids e = true ↔ e.source ∈ ids ∨ e.target ∈ ids := by
  simp [touchesAny]

theorem mem_untouched {ids : List String} {es : List Edge} {e : Edge} :
    e ∈ es.filter (!touchesAny ids ·) ↔ e ∈ es ∧ e.source ∉ ids ∧ e.target ∉ ids := by
  simp [List.mem_filter, touchesAny]

theorem interior_inner (hn : n ∈ l.interior.nodes) : n.kind.isBoundary = false := by
  simpa using (List.mem_filter.mp hn).2

theorem interior_eq_self (h : ∀ n ∈ l.nodes, n.kind.isBoundary = false) : l.interior = l := by
  have hnone : l.nodes.filter (·.kind.isBoundary) = [] := by simpa [List.filter_eq_nil_iff] using h
  obtain ⟨nodes, edges⟩ := l
  simp_all [interior, touchesAny, List.filter_eq_self]

theorem interior_interior (l : Level) : l.interior.interior = l.interior :=
  interior_eq_self fun _ => interior_inner

theorem dropSurplus_inner :
    l.dropSurplus.nodes.filter (!·.kind.isBoundary) = l.nodes.filter (!·.kind.isBoundary) := by
  show (keepFirst .output (keepFirst .input l.nodes)).filter _ = _
  rw [filter_keepFirst (by simp_all [NodeKind.isBoundary]),
    filter_keepFirst (by simp_all [NodeKind.isBoundary])]

theorem editingView_inner (stored : Option Level) :
    (editingView stored).nodes.filter (!·.kind.isBoundary) =
      (stored.getD {}).dropSurplus.nodes.filter (!·.kind.isBoundary) := by
  obtain ⟨before, after, hnodes, hadded⟩ := editingView_nodes stored
  simp only [List.mem_append] at hadded
  have hbefore : before.filter (!·.kind.isBoundary) = [] :=
    List.filter_eq_nil_iff.mpr fun n hn => by simp [(hadded n (.inl hn)).boundary]
  have hafter : after.filter (!·.kind.isBoundary) = [] :=
    List.filter_eq_nil_iff.mpr fun n hn => by simp [(hadded n (.inr hn)).boundary]
  rw [hnodes, List.filter_append, List.filter_append, hbefore, hafter, List.nil_append,
    List.append_nil]

theorem mem_dropSurplus (hn : n ∈ l.nodes) : n ∈ l.dropSurplus.nodes ∨ n.id ∈ l.surplusIds := by
  rcases mem_keepFirst .input hn with hn | hn
  · rcases mem_keepFirst .output hn with hn | hn
    · exact .inl hn
    · rw [surplus_keepFirst (by decide)] at hn
      exact .inr (List.mem_map_of_mem (List.mem_append_right _ hn))
  · exact .inr (List.mem_map_of_mem (List.mem_append_left _ hn))

theorem surplusIds_subset : l.surplusIds ⊆ l.boundaryIds := by
  intro id hid
  obtain ⟨n, hn, rfl⟩ := List.mem_map.mp hid
  refine List.mem_map_of_mem (List.mem_filter.mpr ?_)
  rcases List.mem_append.mp hn with hn | hn
  all_goals
    obtain ⟨hmem, hk⟩ := List.mem_filter.mp (List.mem_of_mem_drop hn)
    exact ⟨hmem, by simp_all [NodeKind.isBoundary]⟩

/-- An added boundary can have taken the id of a surplus one, and of no other node. -/
theorem surplus_of_added (h : Added l.dropSurplus n) (hid : n.id ∈ l.nodeIds) : n.id ∈ l.surplusIds := by
  obtain ⟨m, hm, hmn⟩ := List.mem_map.mp hid
  rcases mem_dropSurplus hm with hm | hm
  · exact absurd (hmn ▸ List.mem_map_of_mem hm) h.free
  · exact hmn ▸ hm

/-- Of the ids of a level, those of boundaries are the surplus ones and those of the boundaries of
its view. -/
theorem mem_boundaryIds (hid : id ∈ l.nodeIds) :
    id ∈ l.boundaryIds ↔ id ∈ l.surplusIds ∨ id ∈ (editingView (some l)).boundaryIds := by
  obtain ⟨before, after, hnodes, hadded⟩ := editingView_nodes (some l)
  have hkept : (editingView (some l)).nodes = before ++ l.dropSurplus.nodes ++ after := hnodes
  constructor
  · intro h
    obtain ⟨n, hn, rfl⟩ := List.mem_map.mp h
    obtain ⟨hmem, hk⟩ := List.mem_filter.mp hn
    refine (mem_dropSurplus hmem).symm.imp_right fun hmem => ?_
    refine List.mem_map_of_mem (List.mem_filter.mpr ⟨?_, hk⟩)
    simp [hkept, hmem]
  · rintro (h | h)
    · exact surplusIds_subset h
    · obtain ⟨n, hn, rfl⟩ := List.mem_map.mp h
      obtain ⟨hmem, hk⟩ := List.mem_filter.mp hn
      rw [hkept, List.append_assoc, List.mem_append, List.mem_append] at hmem
      rcases hmem with hmem | hmem | hmem
      · exact surplusIds_subset (surplus_of_added (hadded n (List.mem_append_left _ hmem)) hid)
      · have hstored := (keepFirst_sublist.trans keepFirst_sublist).subset hmem
        exact List.mem_map_of_mem (List.mem_filter.mpr ⟨hstored, hk⟩)
      · exact surplusIds_subset (surplus_of_added (hadded n (List.mem_append_right _ hmem)) hid)

/-- Boundaries are all that is lost by opening a subflow and keeping the view as it is. -/
theorem interior_editingView (he : ∀ e ∈ l.edges, e.Within l.nodeIds) :
    (editingView (some l)).interior = l.interior := by
  have hnodes : (editingView (some l)).interior.nodes = l.interior.nodes := by
    rw [interior_nodes, editingView_inner, interior_nodes]
    exact dropSurplus_inner
  have hedges : (editingView (some l)).interior.edges = l.interior.edges := by
    rw [interior_edges, editingView_edges, interior_edges]
    show (l.edges.filter (!touchesAny l.surplusIds ·)).filter _ = _
    rw [List.filter_filter]
    refine List.filter_congr fun e hmem => ?_
    rw [← Bool.not_or, Bool.not_inj_iff, Bool.eq_iff_iff, Bool.or_eq_true]
    simp only [touchesAny_iff, mem_boundaryIds (he e hmem).1, mem_boundaryIds (he e hmem).2]
    tauto
  exact (Level.mk.injEq ..).mpr ⟨hnodes, hedges⟩

-- ---------------------------------------------------------------------------
-- What views and interiors consist of
-- ---------------------------------------------------------------------------

namespace ConsistsOf

theorem dropSurplus (h : l.ConsistsOf N) : l.dropSurplus.ConsistsOf N := by
  exact h.restrict l.surplusIds (keepFirst_sublist.trans keepFirst_sublist)
    (fun n hn => mem_dropSurplus hn) fun e he => mem_untouched.mp he

theorem addEntry (hb : N (Boundary.entry.toNode l.nodeIds)) (h : l.ConsistsOf N) :
    l.addEntry.ConsistsOf N := by
  unfold Level.addEntry
  split
  · exact h
  · exact h.insert hb Boundary.toNode_free (.refl _)

theorem addExit (hb : N (Boundary.exit.toNode l.nodeIds)) (h : l.ConsistsOf N) :
    l.addExit.ConsistsOf N := by
  unfold Level.addExit
  split
  · exact h
  · exact h.insert hb Boundary.toNode_free List.perm_append_comm

/-- A view has the nodes of what is stored, and boundaries without data. -/
theorem editingView (hb : ∀ b taken, (b : Boundary).kind.isBoundary → N (b.toNode taken))
    (h : (stored.getD {}).ConsistsOf N) : (Level.editingView stored).ConsistsOf N :=
  addExit (hb _ _ rfl) (addEntry (hb _ _ rfl) h.dropSurplus)

theorem interior (h : view.ConsistsOf N) : view.interior.ConsistsOf N := by
  refine h.restrict view.boundaryIds List.filter_sublist (fun n hn => ?_) fun e he =>
    mem_untouched.mp he
  by_cases hk : n.kind.isBoundary
  · exact .inr (List.mem_map_of_mem (List.mem_filter.mpr ⟨hn, hk⟩))
  · exact .inl (List.mem_filter.mpr ⟨hn, by simpa using hk⟩)

end ConsistsOf

end Level

-- ---------------------------------------------------------------------------
-- Keeping a view
-- ---------------------------------------------------------------------------

/-- A node with a view attached has another subflow and is the same otherwise. -/
theorem Node.attach_ok (h : n.attach view = .ok n') :
    view.interior.validate = .ok () ∧ ∃ d, n.data = some d ∧ n' = { n with data := some { d with
      subflow := if view.interior.nodes.isEmpty then none else some view.interior } } := by
  simp only [attach] at h
  split at h
  · cases h
  · rename_i hv
    split at h
    · cases h
    · rename_i d hd
      cases h
      exact ⟨hv, d, hd, rfl⟩

namespace Node

theorem attach_iff (hn : n.carriesTask) :
    (∃ n', n.attach view = .ok n') ↔ view.interior.validate = .ok () := by
  obtain ⟨d, hd⟩ := Option.isSome_iff_exists.mp hn
  constructor
  · rintro ⟨n', h⟩
    exact (attach_ok h).1
  · intro hv
    simp [attach, hv, hd]

/-- What keeping a view makes of a node: only the subflow is another one, and it shows the interior
of the view when it is opened again. -/
structure Keeps (n : Node) (view : Level) (n' : Node) : Prop where
  others : ∃ d, n.data = some d ∧ n' = { n with data := some { d with subflow := n'.subflow } }
  absent : n'.subflow = none ↔ view.interior.nodes = []
  reopened : ∃ view', n'.openSubflow = .ok view' ∧ view'.interior = view.interior

theorem attach_keeps (h : n.attach view = .ok n') : n.Keeps view n' := by
  obtain ⟨hv, d, hd, rfl⟩ := attach_ok h
  have hedges := (Level.validate_ok.mp hv).here.edges
  cases hempty : view.interior.nodes.isEmpty with
  | true =>
    have hnodes : view.interior.nodes = [] := List.isEmpty_iff.mp hempty
    have hinterior : view.interior = {} := by
      refine (Level.mk.injEq ..).mpr ⟨hnodes, List.eq_nil_iff_forall_not_mem.mpr fun e he => ?_⟩
      simpa [Edge.Within, Level.nodeIds, hnodes] using hedges e he
    refine ⟨⟨d, hd, rfl⟩, by simpa [subflow] using hnodes, Level.editingView none, rfl, ?_⟩
    rw [hinterior]
    exact Level.interior_editingView (l := {}) (by simp)
  | false =>
    refine ⟨⟨d, hd, rfl⟩, by simpa [subflow] using hempty, Level.editingView (some view.interior),
      rfl, ?_⟩
    rw [Level.interior_editingView hedges, Level.interior_interior]

/-- A node keeps its subflow if its view is kept as it is. -/
theorem attach_unedited (hs : n.subflow = some l) (hv : l.validate = .ok ())
    (hinner : ∀ m ∈ l.nodes, m.kind.isBoundary = false) (hne : l.nodes ≠ []) :
    n.attach (Level.editingView (some l)) = .ok n := by
  have hinterior : (Level.editingView (some l)).interior = l := by
    rw [Level.interior_editingView (Level.validate_ok.mp hv).here.edges, Level.interior_eq_self hinner]
  obtain ⟨id, kind, position, label, _ | ⟨task, enabled, combined, sub, combining⟩⟩ := n
  · cases hs
  · obtain rfl : sub = some l := hs
    simp [attach, hinterior, hv, hne]

end Node

namespace Level

theorem attach_refused {e : SubflowError} (hn : l.node? id = some n) (h : n.attach view = .error e) :
    (attach id view l).level = l := by
  simp [attach, hn, h]

theorem views_round_trip :
    (∀ l : Level, (∀ e ∈ l.edges, e.Within l.nodeIds) →
      (editingView (some l)).interior = l.interior) ∧
    (∀ l : Level, (∀ n ∈ l.nodes, n.kind.isBoundary = false) → l.interior = l) ∧
    (∀ view : Level, view.interior.interior = view.interior) ∧
    (∀ stored, editingView (some (editingView stored)) = editingView stored) ∧
    (∀ (n : Node) (view : Level), n.carriesTask →
      ((∃ n', n.attach view = .ok n') ↔ view.interior.validate = .ok ()) ∧
      (∀ n', n.attach view = .ok n' → n.Keeps view n') ∧
      ∀ e, n.attach view = .error e →
        ∀ (l : Level) (id : String), l.node? id = some n → (attach id view l).level = l) ∧
    (∀ (n : Node) (l : Level), n.subflow = some l → l.validate = .ok () →
      (∀ m ∈ l.nodes, m.kind.isBoundary = false) → l.nodes ≠ [] →
      ∃ view, n.openSubflow = .ok view ∧ n.attach view = .ok n) := by
  refine ⟨fun _ => interior_editingView, fun _ => interior_eq_self, interior_interior,
    editingView_editingView, fun n view hn => ⟨Node.attach_iff hn, fun _ => Node.attach_keeps,
      fun e he l id hid => attach_refused hid he⟩, fun n l hs hv hinner hne => ?_⟩
  have hcarries : n.carriesTask := by
    obtain ⟨d, hd, -⟩ := Option.bind_eq_some_iff.mp hs
    exact Option.isSome_of_mem hd
  exact ⟨editingView (some l), by simp [Node.openSubflow, hcarries, hs],
    Node.attach_unedited hs hv hinner hne⟩

/-- A corrupted save: two entries, of which the second has the id of an exit, and an interior node
with the id of an entry. -/
def tangled : Level where
  nodes := [{ id := "start", kind := .input }, { id := "subflow-output", kind := .input },
    .ofTask "subflow-input" { id := "t", name := "T" } none, { id := "choice", kind := .decision }]
  edges := [⟨"1", "start", "subflow-input", none, false⟩,
    ⟨"2", "subflow-output", "choice", none, false⟩, ⟨"3", "subflow-input", "choice", none, true⟩]

def holder : Node := .ofTask "a" { id := "u", name := "U" } none

theorem views_round_trip_tangled :
    (editingView (some tangled)).nodeIds =
      ["start", "subflow-input", "choice", "subflow-output"] ∧
    (editingView (some tangled)).interior = tangled.interior ∧
    (∃ n', holder.attach (editingView (some tangled)) = .ok n' ∧
      holder.Keeps (editingView (some tangled)) n' ∧ ∃ view, n'.openSubflow = .ok view ∧
        n'.attach view = .ok n') := by
  obtain ⟨hopen, -, -, -, hattach, hagain⟩ := views_round_trip
  have hedges : ∀ e ∈ tangled.edges, e.Within tangled.nodeIds := by
    simp [tangled, Edge.Within, nodeIds, Node.ofTask]
  obtain ⟨haccepted, hkeeps, -⟩ := hattach holder (editingView (some tangled)) rfl
  obtain ⟨n', hn'⟩ := haccepted.mpr rfl
  have hsub : n'.subflow = some (editingView (some tangled)).interior := by
    cases hn'
    rfl
  refine ⟨by decide +kernel, hopen tangled hedges, n', hn', hkeeps n' hn', ?_⟩
  exact hagain n' _ hsub rfl (by decide) (List.cons_ne_nil _ _)

end Level

end Workflow

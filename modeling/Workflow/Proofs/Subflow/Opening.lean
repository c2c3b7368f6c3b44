import Workflow.Proofs.Subflow.View

/-!
# What an editing view shows

`editingView_shows`: a view has one entry and one exit, those that come first in what is stored or
else new ones under ids of their own. Everything stored is there otherwise, but for the boundaries
that are one too many and the edges at them, and a view of a valid subflow is valid.
-/

namespace Workflow.Level

variable {kind : NodeKind} {l view : Level} {b n : Node} {stored : Option Level} {id : String}

/-- `b` is the boundary of a kind in a view of `l`: the only one there, and the first that `l` has.
Where `l` has none, no other node of the view has its id. -/
structure Bounds (kind : NodeKind) (l view : Level) (b : Node) : Prop where
  only : view.ofKind kind = [b]
  first : ∀ n, (l.ofKind kind).head? = some n → b = n
  own : l.ofKind kind = [] → view.nodeIds.count b.id = 1

/-- The boundaries of a level behind the first one of their kind. -/
def spareBoundaries (l : Level) : List Node :=
  (l.ofKind .input).tail ++ (l.ofKind .output).tail

-- ---------------------------------------------------------------------------
-- New boundaries have ids of their own
-- ---------------------------------------------------------------------------

theorem count_addEntry (h : l.ofKind .input = []) :
    l.addEntry.nodeIds.count (Boundary.entry.toNode l.nodeIds).id = 1 := by
  have hnone : ¬ l.hasKind .input := by simp [hasKind_iff, h]
  simp only [addEntry, if_neg hnone, nodeIds_mk, List.map_cons, List.count_cons_self]
  rw [List.count_eq_zero_of_not_mem]
  exact Boundary.toNode_free

theorem count_addExit (h : l.ofKind .output = []) :
    l.addExit.nodeIds.count (Boundary.exit.toNode l.nodeIds).id = 1 := by
  have hnone : ¬ l.hasKind .output := by simp [hasKind_iff, h]
  simp only [addExit, if_neg hnone, nodeIds_mk, List.map_append, List.map_cons, List.map_nil,
    List.count_append, List.count_singleton_self]
  rw [List.count_eq_zero_of_not_mem]
  exact Boundary.toNode_free

/-- A new exit does not take an id that is there. -/
theorem count_addExit_of_mem (h : id ∈ l.nodeIds) :
    l.addExit.nodeIds.count id = l.nodeIds.count id := by
  unfold addExit
  split
  · rfl
  · have hne : (Boundary.exit.toNode l.nodeIds).id ≠ id := fun heq =>
      Boundary.toNode_free (heq ▸ h)
    simp only [nodeIds_mk, List.map_append, List.map_cons, List.map_nil, List.count_append,
      List.count_cons_of_ne hne, List.count_nil, Nat.add_zero]
    rfl

-- ---------------------------------------------------------------------------
-- The boundaries of a view
-- ---------------------------------------------------------------------------

theorem exists_entry (stored : Option Level) :
    ∃ entry, Bounds .input (stored.getD {}) (editingView stored) entry := by
  have hkept : (stored.getD {}).dropSurplus.ofKind .input = _ := ofKind_dropSurplus rfl
  rw [editingView]
  cases hk : (stored.getD {}).ofKind .input with
  | nil =>
    rw [hk, List.take_nil] at hkept
    have hview := ofKind_addEntry (l := (stored.getD {}).dropSurplus)
    rw [if_pos hkept] at hview
    have hmem : (Boundary.entry.toNode (stored.getD {}).dropSurplus.nodeIds).id ∈
        (stored.getD {}).dropSurplus.addEntry.nodeIds := by
      rw [← List.count_pos_iff, count_addEntry hkept]
      exact Nat.one_pos
    exact ⟨_, ofKind_addExit_input.trans hview, by simp [hk], fun _ =>
      (count_addExit_of_mem hmem).trans (count_addEntry hkept)⟩
  | cons n ns =>
    rw [hk, List.take_succ_cons, List.take_zero] at hkept
    refine ⟨n, ?_, by simp [hk], by simp [hk]⟩
    rw [ofKind_addExit_input, ofKind_addEntry, if_neg (by simp [hkept]), hkept]

theorem exists_exit (stored : Option Level) :
    ∃ exit, Bounds .output (stored.getD {}) (editingView stored) exit := by
  have hkept : (stored.getD {}).dropSurplus.ofKind .output = _ := ofKind_dropSurplus rfl
  rw [← ofKind_addEntry_output] at hkept
  rw [editingView]
  cases hk : (stored.getD {}).ofKind .output with
  | nil =>
    rw [hk, List.take_nil] at hkept
    refine ⟨_, ?_, by simp [hk], fun _ => count_addExit hkept⟩
    rw [ofKind_addExit, if_pos hkept]
  | cons n ns =>
    rw [hk, List.take_succ_cons, List.take_zero] at hkept
    refine ⟨n, ?_, by simp [hk], by simp [hk]⟩
    rw [ofKind_addExit, if_neg (by simp [hkept]), hkept]

-- ---------------------------------------------------------------------------
-- All else
-- ---------------------------------------------------------------------------

theorem touchesAny_map (ns : List Node) (e : Edge) :
    touchesAny (ns.map (·.id)) e = ns.any (e.touches ·.id) := by
  induction ns with
  | nil => rfl
  | cons n ns ih =>
    rw [List.any_cons, ← ih, Bool.eq_iff_iff]
    simp only [touchesAny_iff, Edge.touches, List.map_cons, List.mem_cons, Bool.or_eq_true,
      beq_iff_eq, or_assoc, or_left_comm]

theorem edges_editingView (stored : Option Level) : (editingView stored).edges =
    (stored.getD {}).edges.filter fun e =>
      (stored.getD {}).spareBoundaries.all (!e.touches ·.id) := by
  rw [editingView_edges]
  refine List.filter_congr fun e _ => ?_
  rw [touchesAny_map, List.not_any_eq_all_not, surplus, surplus, List.drop_one, List.drop_one]
  rfl

theorem toNode_valid {b : Boundary} (hb : b.kind.isBoundary) (taken : List String) :
    (b.toNode taken).Valid where
  task hk := by
    have hk : b.kind = .task := hk
    simp [hk, NodeKind.isBoundary] at hb
  inside _ hs := nomatch hs

theorem editingView_valid (h : (stored.getD {}).validate = .ok ()) :
    (editingView stored).validate = .ok () := by
  rw [validate_ok, valid_iff] at h ⊢
  exact h.editingView fun b taken hb => toNode_valid hb taken

theorem editingView_shows (stored : Option Level) :
    let l := stored.getD {}
    let view := editingView stored
    (∃ entry, Bounds .input l view entry) ∧ (∃ exit, Bounds .output l view exit) ∧
    view.nodes.filter (!·.kind.isBoundary) = l.nodes.filter (!·.kind.isBoundary) ∧
    view.edges = l.edges.filter (fun e => l.spareBoundaries.all (!e.touches ·.id)) ∧
    (l.validate = .ok () → view.validate = .ok ()) :=
  ⟨exists_entry stored, exists_exit stored,
    (editingView_inner stored).trans dropSurplus_inner, edges_editingView stored, editingView_valid⟩

/-- One entry too many and no exit, whose id and the next one are taken by nodes of the interior. -/
def crowded : Level where
  nodes := [{ id := "start", kind := .input }, { id := "subflow-output", kind := .decision },
    { id := "again", kind := .input }, { id := "subflow-output-2", kind := .decision }]
  edges := [⟨"1", "start", "subflow-output", none, false⟩,
    ⟨"2", "again", "subflow-output-2", none, false⟩,
    ⟨"3", "subflow-output", "subflow-output-2", none, true⟩]

theorem editingView_shows_crowded :
    (∃ entry, Bounds .input crowded (editingView (some crowded)) entry ∧ entry.id = "start") ∧
    (∃ exit, Bounds .output crowded (editingView (some crowded)) exit ∧
      exit.id = "subflow-output-3") ∧
    (editingView (some crowded)).edgeIds = ["1", "3"] ∧
    crowded.validate = .ok () ∧ (editingView (some crowded)).validate = .ok () := by
  obtain ⟨⟨entry, hentry⟩, ⟨exit, hexit⟩, -, hedges, hvalid⟩ := editingView_shows (some crowded)
  have hid : ((editingView (some crowded)).ofKind .output).map (·.id) = ["subflow-output-3"] := by
    decide +kernel
  refine ⟨⟨entry, hentry, ?_⟩, ⟨exit, hexit, ?_⟩, ?_, rfl, hvalid rfl⟩
  · rw [hentry.first _ rfl]
  · simpa [hexit.only] using hid
  · rw [edgeIds, hedges]
    decide +kernel

end Workflow.Level

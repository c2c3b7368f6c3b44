import Workflow.Build.Builder
import Workflow.Proofs.Layout.Order

/-!
# A layout fills the gaps

`gaps_filled`: a layout gives a position to every node without one that it goes to, counts them, and
leaves everything else as it was. So there is nothing left to do for a second one.
-/

namespace Workflow

variable {c c' : Layout} {l l' sub : Level} {n m : Node} {ns : List Node} {i k : Nat}
variable {placed : List (Nat × Position)}

-- ---------------------------------------------------------------------------
-- All nodes, at every depth
-- ---------------------------------------------------------------------------

namespace Level

mutual

/-- The nodes of a level, each followed by those inside it. -/
def allNodes : Level → List Node
  | ⟨nodes, _⟩ => allNodesOf nodes

def allNodesOf : List Node → List Node
  | [] => []
  | ⟨id, kind, position, label, some ⟨task, enabled, combined, some sub, combining⟩⟩ :: ns =>
    ⟨id, kind, position, label, some ⟨task, enabled, combined, some sub, combining⟩⟩ ::
      (sub.allNodes ++ allNodesOf ns)
  | n :: ns => n :: allNodesOf ns

end

theorem allNodesOf_cons :
    allNodesOf (n :: ns) = n :: ((n.subflow.map allNodes).getD [] ++ allNodesOf ns) := by
  obtain ⟨id, kind, position, label, _ | ⟨task, enabled, combined, _ | sub, combining⟩⟩ := n <;> rfl

theorem mem_allNodes : m ∈ l.allNodes ↔
    m ∈ l.nodes ∨ ∃ n ∈ l.nodes, ∃ sub, n.subflow = some sub ∧ m ∈ sub.allNodes := by
  obtain ⟨nodes, edges⟩ := l
  show m ∈ allNodesOf nodes ↔ _
  induction nodes with
  | nil => simp [allNodesOf]
  | cons n ns ih =>
    have hinside : m ∈ (n.subflow.map allNodes).getD [] ↔
        ∃ sub, n.subflow = some sub ∧ m ∈ sub.allNodes := by
      cases n.subflow <;> simp
    simp only [allNodesOf_cons, List.mem_cons, List.mem_append, ih, hinside, exists_eq_or_imp,
      or_assoc, or_left_comm]

/-- The nodes at every depth are those of the level itself and those inside them. -/
theorem countP_allNodes (p : Node → Bool) : l.allNodes.countP p =
    l.nodes.countP p + (l.nodes.map fun n => ((n.subflow.map allNodes).getD []).countP p).sum := by
  obtain ⟨nodes, edges⟩ := l
  show (allNodesOf nodes).countP p = _
  induction nodes with
  | nil => rfl
  | cons n ns ih =>
    simp only [allNodesOf_cons, List.countP_cons, List.countP_append, ih, List.map_cons,
      List.sum_cons]
    omega

end Level

namespace Layout

/-- The nodes that a layout is about: those of the level, and those inside if it goes there. -/
def scope (c : Layout) (l : Level) : List Node :=
  if c.recurse then l.allNodes else l.nodes

-- ---------------------------------------------------------------------------
-- Each gap of a level is filled once
-- ---------------------------------------------------------------------------

/-- The places that get positions are those that wait for one, rank by rank. -/
theorem placements_places (h : c.placements l = some placed) : placed.map (·.1) =
    (Rank.ofLevel l).eraseDups.flatMap fun rank => pending (rankGroup l rank) := by
  rw [placements_eq] at h
  obtain ⟨parts, hparts, rfl⟩ := Option.map_eq_some_iff.mp h
  clear h
  rw [mapM_eq_some] at hparts
  generalize (Rank.ofLevel l).eraseDups = ranks at hparts ⊢
  induction hparts with
  | nil => rfl
  | cons hpart _ ih =>
    rw [List.flatten_cons, List.map_append, List.flatMap_cons, placeRank_places hpart, ih]

theorem mem_places (h : c.placements l = some placed) :
    i ∈ placed.map (·.1) ↔ ∃ n, l.nodes[i]? = some n ∧ n.position = none := by
  simp only [placements_places h, List.mem_flatMap, List.mem_eraseDups, mem_pending, mem_rankGroup]
  constructor
  · rintro ⟨rank, -, n, ⟨hn, -⟩, hnone⟩
    exact ⟨n, hn, hnone⟩
  · rintro ⟨n, hn, hnone⟩
    have hlt : i < (Rank.ofLevel l).length := by
      rw [length_ofLevel]
      exact (List.getElem?_eq_some_iff.mp hn).1
    exact ⟨_, List.getElem_mem hlt, n, ⟨hn, List.getElem?_eq_getElem hlt⟩, hnone⟩

theorem places_nodup (h : c.placements l = some placed) : (placed.map (·.1)).Nodup := by
  rw [placements_places h, List.nodup_flatMap]
  refine ⟨fun rank _ => pending_nodup (rankGroup_places l rank), ?_⟩
  refine (nodup_eraseDups _).imp fun {rank rank'} hne i hi hi' => hne ?_
  obtain ⟨n, hn, -⟩ := mem_pending.mp hi
  obtain ⟨n', hn', -⟩ := mem_pending.mp hi'
  exact Option.some.inj ((mem_rankGroup.mp hn).2.symm.trans (mem_rankGroup.mp hn').2)

theorem placements_length (h : c.placements l = some placed) :
    placed.length = l.nodes.countP (·.position.isNone) := by
  have hwaiting : ((l.nodes.zipIdx.filter (·.1.position.isNone)).map (·.2)).Nodup :=
    (List.nodup_zipIdx_map_snd l.nodes).sublist (List.filter_sublist.map _)
  have hperm : (placed.map (·.1)).Perm
      ((l.nodes.zipIdx.filter (·.1.position.isNone)).map (·.2)) := by
    refine (List.perm_ext_iff_of_nodup (places_nodup h) hwaiting).mpr fun i => ?_
    simp [mem_places h, List.mem_zipIdx_iff_getElem?]
  calc
    placed.length = (l.nodes.zipIdx.filter (·.1.position.isNone)).length := by
      simpa using hperm.length_eq
    _ = (l.nodes.zipIdx.map (·.1)).countP (·.position.isNone) := by
      rw [List.countP_map, List.countP_eq_length_filter]
      rfl
    _ = l.nodes.countP (·.position.isNone) := by rw [List.zipIdx_map_fst]

theorem given_isSome (h : c.placements l = some placed) (hn : l.nodes[i]? = some n) :
    (given placed i n).position.isSome := by
  rw [given_eq]
  cases hp : n.position with
  | some p => simp
  | none =>
    obtain ⟨x, hx, rfl⟩ := List.mem_map.mp ((mem_places h).mpr ⟨n, hn, hp⟩)
    simp [(lookup_placements h).mpr hx]

-- ---------------------------------------------------------------------------
-- Every gap is filled
-- ---------------------------------------------------------------------------

theorem placedInside_eq (ih : ∀ sub, n.subflow = some sub → ∀ sub' j, c.apply sub = some (sub', j) →
      j = (c.scope sub).countP (·.position.isNone)) (hends : c.Ends n) (hc : c.recurse) :
    c.placedInside n = ((n.subflow.map Level.allNodes).getD []).countP (·.position.isNone) := by
  cases hs : n.subflow with
  | none => simp [placedInside, nested, hs]
  | some sub =>
    obtain ⟨⟨sub', j⟩, hsub⟩ := Option.isSome_iff_exists.mp (hends hc sub hs)
    have hj := ih sub hs sub' j hsub
    rw [scope, if_pos hc] at hj
    simp [placedInside, nested, hs, hc, hsub, hj]

theorem apply_count (h : c.apply l = some (l', k)) :
    k = (c.scope l).countP (·.position.isNone) := by
  induction l using Level.induction generalizing l' k with
  | h l ih =>
    obtain ⟨hends, j, hplaced, rfl⟩ := apply_ok.mp h
    obtain ⟨placed, hplacements, -, -, rfl⟩ := placeLevel_ok.mp hplaced
    have hhere : placed.length = l.nodes.countP (·.position.isNone) := by
      rw [placements_length hplacements, List.countP_map]
      exact List.countP_congr fun n _ => by simp
    rw [hhere, scope]
    split
    · rename_i hc
      rw [Level.countP_allNodes]
      congr 2
      exact List.map_congr_left fun n hn =>
        placedInside_eq (fun sub hs sub' j => ih n hn sub hs) (hends n hn) hc
    · rename_i hc
      have hnone : c.placedInside = fun _ => 0 := funext fun n => by simp [placedInside, nested, hc]
      simp [hnone]

theorem apply_positions (h : c.apply l = some (l', k)) : ∀ m ∈ c.scope l', m.position.isSome := by
  induction l using Level.induction generalizing l' k with
  | h l ih =>
    obtain ⟨hends, placed, hplaces⟩ := apply_places h
    have hhere : ∀ m ∈ l'.nodes, m.position.isSome := by
      intro m hm
      obtain ⟨i, n, hn, rfl⟩ := hplaces.exists_place hm
      exact given_isSome hplaces.placements (by simp [hn])
    intro m hm
    by_cases hc : c.recurse
    · rw [scope, if_pos hc, Level.mem_allNodes] at hm
      rcases hm with hm | ⟨n', hn', sub', hs', hm⟩
      · exact hhere m hm
      · obtain ⟨i, n, hn, rfl⟩ := hplaces.exists_place hn'
        rw [given_subflow] at hs'
        have hsome : n.subflow.isSome := by
          rw [← laid_subflow_isSome (c := c), hs']
          rfl
        obtain ⟨sub, hs⟩ := Option.isSome_iff_exists.mp hsome
        have hmem := List.mem_of_getElem? hn
        obtain ⟨j, hsub⟩ := (laid_subflow (hends n hmem) hs hs').1 hc
        refine ih n hmem sub hs hsub m ?_
        rwa [scope, if_pos hc]
    · rw [scope, if_neg hc] at hm
      exact hhere m hm

/-- A layout that does not go into subflows changes nothing inside a node. -/
theorem apply_data (hc : ¬ c.recurse) (h : c.apply l = some (l', k)) :
    l'.nodes.map (·.data) = l.nodes.map (·.data) := by
  obtain ⟨-, placed, hplaces⟩ := apply_places h
  refine List.ext_getElem? fun i => ?_
  have hlaid : ∀ n, c.laid n = n := fun n => by simp [laid, nested, hc]
  simp [hplaces.nodes, given_eq, hlaid, Function.comp_def]

-- ---------------------------------------------------------------------------
-- Nothing is left to do
-- ---------------------------------------------------------------------------

theorem placements_full (h : ∀ n ∈ l.nodes, n.position.isSome) : c.placements l = some [] := by
  have hpending : ∀ rank, pending (rankGroup l rank) = [] := by
    intro rank
    rw [List.eq_nil_iff_forall_not_mem]
    intro i hi
    obtain ⟨n, hn, hnone⟩ := mem_pending.mp hi
    have hsome := h n (List.mem_of_getElem? (mem_rankGroup.mp hn).1)
    simp [hnone] at hsome
  have hplaced : (c.placements l).isSome := by
    rw [placements_eq, Option.isSome_map, mapM_isSome]
    intro rank _
    simp [placeRank_eq, hpending, spread, clearSlots]
  obtain ⟨placed, hplaced⟩ := Option.isSome_iff_exists.mp hplaced
  have hlen : placed.map (·.1) = [] := by simp [placements_places hplaced, hpending]
  rw [hplaced, List.map_eq_nil_iff.mp hlen]

theorem laid_full (h : ∀ sub, n.subflow = some sub → c.recurse → c.apply sub = some (sub, 0)) :
    c.Ends n ∧ c.laid n = n ∧ c.placedInside n = 0 := by
  have hends : c.Ends n := fun hc sub hs => by rw [h sub hs hc]; rfl
  rw [laid, placedInside, nested]
  by_cases hc : c.recurse
  · cases hs : n.subflow with
    | none => simpa [hs] using hends
    | some sub => simp [hc, h sub hs hc, hends, Node.setSubflow_self hs]
  · simpa [hc] using hends

/-- A layout finds nothing to do where all nodes have positions. -/
theorem apply_full (h : ∀ n ∈ c.scope l, n.position.isSome) : c.apply l = some (l, 0) := by
  induction l using Level.induction with
  | h l ih =>
    have hhere : ∀ n ∈ l.nodes, n.position.isSome := by
      intro n hn
      refine h n ?_
      rw [scope]
      split
      · exact Level.mem_allNodes.mpr (.inl hn)
      · exact hn
    have hinside : ∀ n ∈ l.nodes, c.Ends n ∧ c.laid n = n ∧ c.placedInside n = 0 := by
      refine fun n hn => laid_full fun sub hs hc => ih n hn sub hs fun m hm => h m ?_
      rw [scope, if_pos hc] at hm ⊢
      exact Level.mem_allNodes.mpr (.inr ⟨n, hn, sub, hs, hm⟩)
    have hlaid : l.nodes.map c.laid = l.nodes :=
      (List.map_congr_left fun n hn => (hinside n hn).2.1).trans (List.map_id' _)
    have hcount : (l.nodes.map c.placedInside).sum = 0 :=
      List.sum_eq_zero fun k hk => by
        obtain ⟨n, hn, rfl⟩ := List.mem_map.mp hk
        exact (hinside n hn).2.2
    refine apply_ok.mpr ⟨fun n hn => (hinside n hn).1, 0, ?_, by rw [hcount]⟩
    rw [hlaid]
    refine placeLevel_ok.mpr ⟨[], placements_full hhere, rfl, fun i => ?_, rfl⟩
    cases l.nodes[i]? <;> rfl

/-- A layout gives a position to every node without one that it goes to, and tells how many there
were. All else stays as it was, the phases of a root too, so a second layout of the same extent has
nothing to do. -/
theorem gaps_filled (h : c.apply l = some (l', k)) :
    l.Fills l' ∧ (¬ c.recurse → l'.nodes.map (·.data) = l.nodes.map (·.data)) ∧
    (∀ n ∈ c.scope l', n.position.isSome) ∧ k = (c.scope l).countP (·.position.isNone) ∧
    (∀ phases, c.applyGraph { l with phases } = some ({ l' with phases }, k)) ∧
    ∀ c' : Layout, c'.recurse = c.recurse → c'.apply l' = some (l', 0) := by
  have hpositions := apply_positions h
  refine ⟨apply_fills h, fun hc => apply_data hc h, hpositions, apply_count h, fun phases => ?_,
    fun c' hc => apply_full ?_⟩
  · simp [applyGraph, h]
  · rwa [scope, hc]

/-- Two gaps of the fork are inside a node. A layout that goes there fills four, any other two. -/
theorem gaps_filled_fork :
    (∃ l', ({} : Layout).apply fork = some (l', 4) ∧ fork.Fills l' ∧
      (∀ n ∈ l'.allNodes, n.position.isSome) ∧
      ({ direction := .topToBottom } : Layout).apply l' = some (l', 0)) ∧
    ∃ l', ({ recurse := false } : Layout).apply fork = some (l', 2) ∧
      l'.nodes.map (·.data) = fork.nodes.map (·.data) := by
  constructor
  · have hends : (({} : Layout).apply fork).isSome := by decide +kernel
    obtain ⟨⟨l', k⟩, h⟩ := Option.isSome_iff_exists.mp hends
    obtain ⟨hfills, -, hpositions, rfl, -, hagain⟩ := gaps_filled h
    exact ⟨l', h, hfills, hpositions, hagain _ rfl⟩
  · have hends : (({ recurse := false } : Layout).apply fork).isSome := by decide +kernel
    obtain ⟨⟨l', k⟩, h⟩ := Option.isSome_iff_exists.mp hends
    obtain ⟨-, hdata, -, rfl, -⟩ := gaps_filled h
    exact ⟨l', h, hdata (by decide)⟩

end Layout

end Workflow

import Workflow.Proofs.Graph.Route
import Workflow.Proofs.Layout.Fill
import Workflow.Proofs.Layout.Rounds

/-!
# A layout does not depend on how a level is listed

Ranks are the same by ids, and the nodes of a rank take their slots in the order of their ids, so a
layout gives every id the same position in whatever order the nodes and the edges of a level are
listed, at every depth. Only the ranks of a level with cycles depend on the order of its nodes.
-/

namespace Workflow

variable {c : Layout} {l l' m m' : Level} {n n' : Node} {i j k rank : Nat} {p : Position}
variable {id : String} {path : Path} {group group' : List (Node × Nat)}
variable {ps placed placed' : List (Nat × Position)}

namespace Layout

-- ---------------------------------------------------------------------------
-- One rank, by ids
-- ---------------------------------------------------------------------------

/-- The nodes that wait for a position, in the order of their ids. -/
def queue (group : List (Node × Nat)) : List (Node × Nat) :=
  (group.filter fun (n, _) => n.position.isNone).mergeSort fun (a, _) (b, _) => !(b.id < a.id)

/-- What a rank reads off a node. -/
def stub (x : Node × Nat) : String × Option Position := (x.1.id, x.1.position)

theorem pending_eq : pending group = (queue group).map (·.2) := rfl

theorem mem_queue {x : Node × Nat} (h : x ∈ queue group) : x ∈ group :=
  (List.mem_filter.mp (List.mem_mergeSort.mp h)).1

theorem queue_sorted (group : List (Node × Nat)) :
    ((queue group).map (·.1.id)).Pairwise (· ≤ ·) := by
  have hle : ∀ x y : Node × Nat, (!decide (y.1.id < x.1.id)) = true ↔ x.1.id ≤ y.1.id := by
    simp only [Bool.not_eq_true', decide_eq_false_iff_not, String.not_lt, implies_true]
  refine List.pairwise_map.mpr ((List.pairwise_mergeSort ?_ ?_ _).imp fun {x y} h => (hle x y).mp h)
  · intro x y z hxy hyz
    exact (hle x z).mpr (String.le_trans ((hle x y).mp hxy) ((hle y z).mp hyz))
  · intro x y
    rw [Bool.or_eq_true, hle, hle]
    exact String.le_total x.1.id y.1.id

/-- Sorted lists of the same ids are equal, so the queue does not depend on the order of its
group. -/
theorem queue_perm (h : (group.map stub).Perm (group'.map stub)) :
    (queue group).map (·.1.id) = (queue group').map (·.1.id) := by
  have hids : ∀ group : List (Node × Nat), ((queue group).map (·.1.id)).Perm
      (((group.map stub).filter (·.2.isNone)).map (·.1)) := fun group => by
    rw [List.filter_map, List.map_map]
    exact (List.mergeSort_perm _ _).map _
  have hperm := (hids group).trans (((h.filter _).map _).trans (hids group').symm)
  exact hperm.eq_of_pairwise' (queue_sorted group) (queue_sorted group')

theorem occupied_perm (h : (group.map stub).Perm (group'.map stub)) :
    (c.occupied (group.map (·.1))).Perm (c.occupied (group'.map (·.1))) := by
  have hstub : ∀ group : List (Node × Nat), c.occupied (group.map (·.1)) =
      (group.map stub).filterMap fun s => (s.2.map c.secondary).filter (·.isFinite) := by
    intro group
    simp only [occupied, List.filterMap_map]
    rfl
  rw [hstub, hstub]
  exact h.filterMap _

theorem spread_perm {α : Type} [Axis α] {xs ys : List α} (h : xs.Perm ys) (origin spacing : α)
    (n : Nat) : spread origin spacing xs n = spread origin spacing ys n := by
  have hclear : isClear origin spacing xs = isClear origin spacing ys := funext fun k => h.all_eq
  rw [spread, spread, hclear]

/-- The positions that a rank hands out, by the ids of the nodes. -/
def grants (c : Layout) (rank : Nat) (group : List (Node × Nat)) :
    Option (List (String × Position)) :=
  let ids := (queue group).map (·.1.id)
  (spread (c.secondary c.origin) c.spacing (c.occupied (group.map (·.1))) ids.length).map fun xs =>
    ids.zip (xs.map (c.position (Axis.slot (c.primary c.origin) c.rankSpacing rank)))

theorem grants_perm (h : (group.map stub).Perm (group'.map stub)) :
    c.grants rank group = c.grants rank group' := by
  rw [grants, grants, queue_perm h, spread_perm (occupied_perm h)]

theorem mem_zip_map {α β γ : Type} {f : α → β} {xs : List α} {ys : List γ} {x : α} {y : γ}
    (hf : ∀ x' ∈ xs, f x' = f x → x' = x) : (f x, y) ∈ (xs.map f).zip ys ↔ (x, y) ∈ xs.zip ys := by
  rw [List.zip_map_left, List.mem_map]
  constructor
  · rintro ⟨⟨x', y'⟩, hmem, heq⟩
    obtain ⟨hx, rfl⟩ := Prod.mk.inj heq
    rwa [hf x' (List.of_mem_zip hmem).1 hx] at hmem
  · intro hmem
    exact ⟨(x, y), hmem, rfl⟩

/-- A place and the id of its node get the same position. -/
theorem placeRank_grants (hplaces : (group.map (·.2)).Nodup) (hids : (group.map (·.1.id)).Nodup)
    (h : c.placeRank rank group = some ps) : ∃ gs, c.grants rank group = some gs ∧
      ∀ n i p, (n, i) ∈ group → ((i, p) ∈ ps ↔ (n.id, p) ∈ gs) := by
  rw [placeRank_eq, pending_eq] at h
  obtain ⟨xs, hxs, rfl⟩ := Option.map_eq_some_iff.mp h
  have hgrants : c.grants rank group = some (((queue group).map (·.1.id)).zip
      (xs.map (c.position (Axis.slot (c.primary c.origin) c.rankSpacing rank)))) := by
    rw [List.length_map] at hxs
    simp [grants, hxs]
  refine ⟨_, hgrants, fun n i p hn => ?_⟩
  have hplace : ∀ x ∈ queue group, x.2 = i → x = (n, i) := fun x hx =>
    List.inj_on_of_nodup_map hplaces (mem_queue hx) hn
  have hid : ∀ x ∈ queue group, x.1.id = n.id → x = (n, i) := fun x hx =>
    List.inj_on_of_nodup_map hids (mem_queue hx) hn
  exact (mem_zip_map (x := (n, i)) hplace).trans (mem_zip_map (x := (n, i)) hid).symm

theorem placeRank_isSome : (c.placeRank rank group).isSome = (c.grants rank group).isSome := by
  simp [placeRank_eq, pending_eq, grants]

-- ---------------------------------------------------------------------------
-- One level, by ids
-- ---------------------------------------------------------------------------

theorem placements_isSome : (c.placements l).isSome ↔
    ∀ rank ∈ Rank.ofLevel l, (c.grants rank (rankGroup l rank)).isSome := by
  rw [placements_eq, Option.isSome_map, mapM_isSome]
  simp only [List.mem_eraseDups, placeRank_isSome]

theorem exists_mem_rankGroup (h : rank ∈ Rank.ofLevel l) : ∃ n i, (n, i) ∈ rankGroup l rank := by
  obtain ⟨i, hi⟩ := List.mem_iff_getElem?.mp h
  obtain ⟨hlt, -⟩ := List.getElem?_eq_some_iff.mp hi
  exact ⟨_, i, mem_rankGroup.mpr ⟨List.getElem?_eq_getElem (length_ofLevel l ▸ hlt), hi⟩⟩

theorem rankGroup_ids (hd : l.nodeIds.Nodup) (rank : Nat) :
    ((rankGroup l rank).map (·.1.id)).Nodup := by
  have hids : l.nodes.zipIdx.map (·.1.id) = l.nodeIds := by
    rw [Level.nodeIds, ← List.zipIdx_map_fst 0 l.nodes, List.map_map, List.zipIdx_map_fst]
    rfl
  exact (hids ▸ hd).sublist ((rankGroup_sublist l rank).map _)

theorem place_of_id (hd : l.nodeIds.Nodup) (hn : l.nodes[i]? = some n) (hn' : l.nodes[j]? = some n')
    (hid : n.id = n'.id) : i = j := by
  have hi : l.nodeIds[i]? = some n.id := by simp [Level.nodeIds, hn]
  have hj : l.nodeIds[j]? = some n.id := by simp [Level.nodeIds, hn', hid]
  obtain ⟨hlt, -⟩ := List.getElem?_eq_some_iff.mp hi
  exact (List.getElem?_inj hlt hd).mp (hi.trans hj.symm)

end Layout

/-- Two levels that look the same to a layout, by ids. -/
structure Level.SameView (l m : Level) : Prop extends l.SameNet m where
  positions : ∀ n ∈ l.nodes, ∀ n' ∈ m.nodes, n.id = n'.id → n.position = n'.position

theorem Level.SameView.symm (h : l.SameView m) : m.SameView l where
  toSameNet := h.toSameNet.symm
  positions n hn n' hn' hid := (h.positions n' hn' n hn hid.symm).symm

namespace Layout

variable (h : l.SameView m)
include h

theorem mem_rankGroup_of (hn : (n, i) ∈ rankGroup l rank) :
    ∃ n' j, (n', j) ∈ rankGroup m rank ∧ n'.id = n.id := by
  obtain ⟨hnode, hrank⟩ := mem_rankGroup.mp hn
  have hi : l.nodeIds[i]? = some n.id := by simp [Level.nodeIds, hnode]
  obtain ⟨j, hj, hrank'⟩ := h.ranked_of ⟨i, hi, hrank⟩
  rw [Level.nodeIds, List.getElem?_map] at hj
  obtain ⟨n', hn', hid⟩ := Option.map_eq_some_iff.mp hj
  exact ⟨n', j, mem_rankGroup.mpr ⟨hn', hrank'⟩, hid⟩

theorem mem_stubs_of {s : String × Option Position} (hs : s ∈ (rankGroup l rank).map stub) :
    s ∈ (rankGroup m rank).map stub := by
  obtain ⟨⟨n, i⟩, hn, rfl⟩ := List.mem_map.mp hs
  obtain ⟨n', j, hn', hid⟩ := mem_rankGroup_of h hn
  have hl : n ∈ l.nodes := List.mem_of_getElem? (mem_rankGroup.mp hn).1
  have hm : n' ∈ m.nodes := List.mem_of_getElem? (mem_rankGroup.mp hn').1
  have hposition : n'.position = n.position := (h.positions n hl n' hm hid.symm).symm
  exact List.mem_map.mpr ⟨(n', j), hn', Prod.ext hid hposition⟩

theorem stubs_perm (rank : Nat) :
    ((rankGroup l rank).map stub).Perm ((rankGroup m rank).map stub) := by
  have hnodup : ∀ l : Level, l.nodeIds.Nodup → ((rankGroup l rank).map stub).Nodup := fun l hd => by
    refine List.Nodup.of_map Prod.fst ?_
    rw [List.map_map]
    exact rankGroup_ids hd rank
  refine (List.perm_ext_iff_of_nodup (hnodup l h.unique) (hnodup m h.symm.unique)).mpr fun s => ?_
  exact ⟨mem_stubs_of h, mem_stubs_of h.symm⟩

theorem grants_eq (c : Layout) (rank : Nat) :
    c.grants rank (rankGroup l rank) = c.grants rank (rankGroup m rank) :=
  grants_perm (stubs_perm h rank)

theorem placements_isSome_of (hl : (c.placements l).isSome) : (c.placements m).isSome := by
  refine placements_isSome.mpr fun rank hrank => ?_
  obtain ⟨n', j, hn'⟩ := exists_mem_rankGroup hrank
  obtain ⟨n, i, hn, -⟩ := mem_rankGroup_of h.symm hn'
  rw [← grants_eq h]
  exact placements_isSome.mp hl rank (List.mem_of_getElem? (mem_rankGroup.mp hn).2)

theorem lookup_placements_of (hl : c.placements l = some placed)
    (hm : c.placements m = some placed') (hn : l.nodes[i]? = some n)
    (hn' : m.nodes[j]? = some n') (hid : n.id = n'.id) (hp : placed.lookup i = some p) : placed'.lookup j = some p := by
  obtain ⟨rank, -, ps, hps, hmem⟩ := (mem_placements hl).mp ((lookup_placements hl).mp hp)
  have hgroup : (n, i) ∈ rankGroup l rank := mem_rankGroup.mpr ⟨hn, (placed_in_rank hps hmem).1⟩
  obtain ⟨n'', j', hgroup', hid'⟩ := mem_rankGroup_of h hgroup
  obtain ⟨hn'', hrank⟩ := mem_rankGroup.mp hgroup'
  cases place_of_id h.symm.unique hn'' hn' (hid'.trans hid)
  cases hn'.symm.trans hn''
  -- Both ranks hand out the same positions by ids, and places get what their ids get.
  obtain ⟨gs, hgs, hplace⟩ :=
    placeRank_grants (rankGroup_places l rank) (rankGroup_ids h.unique rank) hps
  have hsome : (c.placeRank rank (rankGroup m rank)).isSome := by
    rw [placeRank_isSome, ← grants_eq h, hgs]
    rfl
  obtain ⟨qs, hqs⟩ := Option.isSome_iff_exists.mp hsome
  obtain ⟨gs', hgs', hplace'⟩ :=
    placeRank_grants (rankGroup_places m rank) (rankGroup_ids h.symm.unique rank) hqs
  cases hgs.symm.trans ((grants_eq h c rank).trans hgs')
  have hmem' : (j, p) ∈ qs := (hplace' n' j p hgroup').mpr (hid ▸ (hplace n i p hgroup).mp hmem)
  exact (lookup_placements hm).mpr
    ((mem_placements hm).mpr ⟨rank, List.mem_of_getElem? hrank, qs, hqs, hmem'⟩)

theorem given_position (hl : c.placements l = some placed) (hm : c.placements m = some placed')
    (hn : l.nodes[i]? = some n) (hn' : m.nodes[j]? = some n') (hid : n.id = n'.id) :
    (given placed i n).position = (given placed' j n').position := by
  have hlookup : placed.lookup i = placed'.lookup j := Option.ext fun p =>
    ⟨lookup_placements_of h hl hm hn hn' hid, lookup_placements_of h.symm hm hl hn' hn hid.symm⟩
  have hposition := h.positions n (List.mem_of_getElem? hn) n' (List.mem_of_getElem? hn') hid
  simp [given_eq, hlookup, hposition]

end Layout

-- ---------------------------------------------------------------------------
-- Levels at every depth
-- ---------------------------------------------------------------------------

namespace Level

/-- Two levels that look the same to a layout, and so do the levels inside them, at every depth. -/
inductive Relisted : Level → Level → Prop
  | refl (l : Level) : Relisted l l
  | intro {l m : Level} (view : l.SameView m)
      (opens : ∀ n ∈ l.nodes, ∀ n' ∈ m.nodes, n.id = n'.id → n.subflow.isSome = n'.subflow.isSome)
      (inside : ∀ n ∈ l.nodes, ∀ n' ∈ m.nodes, n.id = n'.id → ∀ sub sub', n.subflow = some sub →
        n'.subflow = some sub' → Relisted sub sub') : Relisted l m

theorem Relisted.symm (h : l.Relisted m) : m.Relisted l := by
  induction h with
  | refl l => exact .refl l
  | intro view opens _ ih =>
    refine .intro view.symm ?_ ?_
    · exact fun n hn n' hn' hid => (opens n' hn' n hn hid.symm).symm
    · exact fun n hn n' hn' hid sub sub' hs hs' => ih n' hn' n hn hid.symm sub' sub hs' hs

theorem SameNet.exists_same_id (h : l.SameNet m) (hn : n ∈ l.nodes) :
    ∃ n' ∈ m.nodes, n.id = n'.id := by
  obtain ⟨n', hn', hid⟩ := List.mem_map.mp (h.ids.subset (List.mem_map_of_mem hn))
  exact ⟨n', hn', hid.symm⟩

theorem SameNet.exists_node? (h : l.SameNet m) (hn : l.node? id = some n) :
    n ∈ l.nodes ∧ ∃ n' ∈ m.nodes, m.node? id = some n' ∧ n.id = n'.id := by
  obtain ⟨hmem, rfl⟩ := node?_mem hn
  obtain ⟨n', hn', hid⟩ := h.exists_same_id hmem
  exact ⟨hmem, n', hn', hid ▸ node?_of_mem h.symm.unique hn', hid⟩

theorem Relisted.reaches (h : l.Relisted m) (hl : l.Reaches path l') :
    ∃ m', m.Reaches path m' ∧ l'.Relisted m' := by
  induction hl generalizing m with
  | here => exact ⟨m, .here, h⟩
  | @down l sub l' n id path hn hs hl ih =>
    cases h with
    | refl => exact ⟨l', .down hn hs hl, .refl l'⟩
    | intro view opens inside =>
      obtain ⟨hmem, n', hn', hm, hid⟩ := view.exists_node? hn
      have hopen : n'.subflow.isSome := by rw [← opens n hmem n' hn' hid, hs]; rfl
      obtain ⟨sub', hs'⟩ := Option.isSome_iff_exists.mp hopen
      obtain ⟨m', hreaches, hrelisted⟩ := ih (inside n hmem n' hn' hid sub sub' hs hs')
      exact ⟨m', .down hm hs' hreaches, hrelisted⟩

theorem Relisted.node? (h : l.Relisted m) (hn : l.node? id = some n) :
    ∃ n', m.node? id = some n' ∧ n'.position = n.position := by
  cases h with
  | refl => exact ⟨n, hn, rfl⟩
  | intro view _ _ =>
    obtain ⟨hmem, n', hn', hm, hid⟩ := view.exists_node? hn
    exact ⟨n', hm, (view.positions n hmem n' hn' hid).symm⟩

/-- The position of a node of the level at the end of a path; none if there is no such node. -/
def positionAt (l : Level) (path : Path) (id : String) : Option (Option Position) :=
  (l.resolve 0 path).toOption.bind fun m => (m.node? id).map (·.position)

theorem positionAt_eq_some {o : Option Position} : l.positionAt path id = some o ↔
    ∃ m n, l.Reaches path m ∧ m.node? id = some n ∧ n.position = o := by
  simp only [positionAt, Option.bind_eq_some_iff, Option.map_eq_some_iff, toOption_eq_some,
    resolve_ok]
  constructor
  · rintro ⟨m, hm, n, hn, ho⟩
    exact ⟨m, n, hm, hn, ho⟩
  · rintro ⟨m, n, hm, hn, ho⟩
    exact ⟨m, hm, n, hn, ho⟩

theorem Relisted.positionAt_of {o : Option Position} (h : l.Relisted m)
    (hl : l.positionAt path id = some o) : m.positionAt path id = some o := by
  obtain ⟨l', n, hreaches, hn, rfl⟩ := positionAt_eq_some.mp hl
  obtain ⟨m', hreaches', h'⟩ := h.reaches hreaches
  obtain ⟨n', hn', hposition⟩ := h'.node? hn
  exact positionAt_eq_some.mpr ⟨m', n', hreaches', hn', hposition⟩

end Level

namespace Layout

namespace Places

variable (h : c.Places placed l l')
include h

theorem nodeIds : l'.nodeIds = l.nodeIds := by
  refine List.ext_getElem? fun i => ?_
  simp [Level.nodeIds, h.nodes, given_eq, Function.comp_def]

theorem exists_place (hn : n' ∈ l'.nodes) :
    ∃ (i : Nat) (n : Node), l.nodes[i]? = some n ∧ n' = given placed i (c.laid n) := by
  obtain ⟨i, hi⟩ := List.mem_iff_getElem?.mp hn
  rw [h.nodes] at hi
  obtain ⟨n, hplace, rfl⟩ := Option.map_eq_some_iff.mp hi
  exact ⟨i, n, hplace, rfl⟩

end Places

theorem apply_isSome : (c.apply l).isSome ↔ (∀ n ∈ l.nodes, c.Ends n) ∧
    (c.placements ⟨l.nodes.map c.laid, l.edges⟩).isSome := by
  rw [← placeLevel_isSome]
  simp only [Option.isSome_iff_exists, Prod.exists, apply_ok]
  constructor
  · rintro ⟨l', -, hends, j, hl, -⟩
    exact ⟨hends, l', j, hl⟩
  · rintro ⟨hends, l', j, hl⟩
    exact ⟨l', _, hends, j, hl, rfl⟩

theorem sameView_laid (h : l.SameView m) (c : Layout) :
    Level.SameView ⟨l.nodes.map c.laid, l.edges⟩ ⟨m.nodes.map c.laid, m.edges⟩ where
  toSameNet := h.toSameNet.congr (by simp [Level.nodeIds]) rfl (by simp [Level.nodeIds]) rfl
  positions := by simpa using h.positions

section

variable (hopen : n.subflow.isSome = n'.subflow.isSome)
variable (ih : ∀ sub sub', n.subflow = some sub → n'.subflow = some sub' → ∀ x k,
  c.apply sub = some (x, k) → ∃ y k', c.apply sub' = some (y, k') ∧ x.Relisted y)
include hopen ih

theorem ends_of (h : c.Ends n) : c.Ends n' := by
  intro hc sub' hs'
  have hsome : n.subflow.isSome := by rw [hopen, hs']; rfl
  obtain ⟨sub, hs⟩ := Option.isSome_iff_exists.mp hsome
  obtain ⟨⟨x, k⟩, hx⟩ := Option.isSome_iff_exists.mp (h hc sub hs)
  obtain ⟨y, k', hy, -⟩ := ih sub sub' hs hs' x k hx
  rw [hy]
  rfl

theorem laid_relisted {x y : Level}
    (inside : ∀ sub sub', n.subflow = some sub → n'.subflow = some sub' → sub.Relisted sub')
    (h : c.Ends n) (hx : (c.laid n).subflow = some x) (hy : (c.laid n').subflow = some y) :
    x.Relisted y := by
  have hsome : n.subflow.isSome := by rw [← laid_subflow_isSome (c := c), hx]; rfl
  obtain ⟨sub, hs⟩ := Option.isSome_iff_exists.mp hsome
  obtain ⟨sub', hs'⟩ := Option.isSome_iff_exists.mp (hopen ▸ hsome)
  obtain ⟨hgoes, hstays⟩ := laid_subflow h hs hx
  obtain ⟨hgoes', hstays'⟩ := laid_subflow (ends_of hopen ih h) hs' hy
  by_cases hc : c.recurse
  · obtain ⟨k, hk⟩ := hgoes hc
    obtain ⟨k', hk'⟩ := hgoes' hc
    obtain ⟨y', k'', hy', hrelisted⟩ := ih sub sub' hs hs' x k hk
    cases hk'.symm.trans hy'
    exact hrelisted
  · rw [hstays hc, hstays' hc]
    exact inside sub sub' hs hs'

end

/-- The layouts of two levels that are listed differently are listed differently, and no more. -/
theorem apply_of_relisted (h : l.Relisted m) (hl : c.apply l = some (l', k)) :
    ∃ m' k', c.apply m = some (m', k') ∧ l'.Relisted m' := by
  induction h generalizing l' k with
  | refl l => exact ⟨l', k, hl, .refl l'⟩
  | @intro l m view opens inside ih =>
    obtain ⟨hends, placed, hplaces⟩ := apply_places hl
    -- The levels inside are laid out alike by the induction, the level itself by ranks and ids.
    have ih : ∀ n ∈ l.nodes, ∀ n' ∈ m.nodes, n.id = n'.id → ∀ sub sub', n.subflow = some sub →
        n'.subflow = some sub' → ∀ x k, c.apply sub = some (x, k) →
        ∃ y k', c.apply sub' = some (y, k') ∧ x.Relisted y :=
      fun n hn n' hn' hid sub sub' hs hs' x k => ih n hn n' hn' hid sub sub' hs hs'
    have hends' : ∀ n ∈ m.nodes, c.Ends n := by
      intro n' hn'
      obtain ⟨n, hn, hid⟩ := view.symm.exists_same_id hn'
      exact ends_of (opens n hn n' hn' hid.symm) (ih n hn n' hn' hid.symm) (hends n hn)
    have hview := sameView_laid view c
    have hsome := placements_isSome_of hview (Option.isSome_of_eq_some hplaces.placements)
    obtain ⟨⟨m', k'⟩, hm⟩ := Option.isSome_iff_exists.mp (apply_isSome.mpr ⟨hends', hsome⟩)
    obtain ⟨-, placed', hplaces'⟩ := apply_places hm
    have hnet : l'.SameNet m' :=
      view.toSameNet.congr hplaces.nodeIds hplaces.edges hplaces'.nodeIds hplaces'.edges
    refine ⟨m', k', hm, .intro ⟨hnet, ?positions⟩ ?opens ?inside⟩
    all_goals
      intro n₁ hn₁ n₂ hn₂ hid
      obtain ⟨i, n, hn, rfl⟩ := hplaces.exists_place hn₁
      obtain ⟨j, n', hn', rfl⟩ := hplaces'.exists_place hn₂
      have hid : n.id = n'.id := by simpa [given_eq] using hid
      have hmem := List.mem_of_getElem? hn
      have hmem' := List.mem_of_getElem? hn'
      have hopen := opens n hmem n' hmem' hid
    case positions =>
      refine given_position hview hplaces.placements hplaces'.placements ?_ ?_ (by simpa using hid)
      · simp [hn]
      · simp [hn']
    case opens =>
      rwa [given_subflow, given_subflow, laid_subflow_isSome, laid_subflow_isSome]
    case inside =>
      intro x y hx hy
      rw [given_subflow] at hx hy
      exact laid_relisted hopen (ih n hmem n' hmem' hid) (inside n hmem n' hmem' hid)
        (hends n hmem) hx hy

/-- A layout gives every node the same position in whatever order the nodes and edges of its level
are listed; and where it finds no slot for a node of one listing, it finds none in the other. -/
theorem apply_relisted (c : Layout) (h : l.Relisted m) : (c.apply l = none ∧ c.apply m = none) ∨
    ∃ l' j m' k, c.apply l = some (l', j) ∧ c.apply m = some (m', k) ∧
      ∀ path id, l'.positionAt path id = m'.positionAt path id := by
  cases hl : c.apply l with
  | none =>
    refine .inl ⟨rfl, ?_⟩
    by_contra hm
    obtain ⟨⟨m', k⟩, hm⟩ := Option.ne_none_iff_exists'.mp hm
    obtain ⟨l', j, hl', -⟩ := apply_of_relisted h.symm hm
    cases hl.symm.trans hl'
  | some r =>
    obtain ⟨l', j⟩ := r
    obtain ⟨m', k, hm, h'⟩ := apply_of_relisted h hl
    refine .inr ⟨l', j, m', k, rfl, hm, fun path id => Option.ext fun o => ?_⟩
    exact ⟨h'.positionAt_of, h'.symm.positionAt_of⟩

def link (source target : String) : Edge := { id := source ++ target, source, target }

def plain (id : String) : Node := { id, kind := .decision }

def nesting (id : String) (sub : Level) : Node :=
  { id, kind := .task
    data := some { task := { id := "t", name := "Alpha" }, subflow := some sub } }

/-- One node of the fork is nested and one has a position. -/
def fork : Level where
  nodes := [nesting "a" ⟨[plain "x", plain "y"], [link "x" "y"]⟩,
    { plain "b" with position := some ⟨300, 50⟩ }, plain "d"]
  edges := [link "a" "b", link "a" "d"]

/-- The fork with its nodes in reverse and with edges that do not count. -/
def forkReversed : Level where
  nodes := [plain "d", { plain "b" with position := some ⟨300, 50⟩ },
    nesting "a" ⟨[plain "y", plain "x"], [link "x" "y"]⟩]
  edges := [link "a" "d", link "a" "d", link "d" "d", link "a" "b", link "b" "gone"]

theorem apply_relisted_reversed : fork.Relisted forkReversed ∧
    ∃ l' j m' k, ({} : Layout).apply fork = some (l', j) ∧
      ({} : Layout).apply forkReversed = some (m', k) ∧
      ∀ path id, l'.positionAt path id = m'.positionAt path id := by
  have hinner : Level.Relisted ⟨[plain "x", plain "y"], [link "x" "y"]⟩
      ⟨[plain "y", plain "x"], [link "x" "y"]⟩ := by
    refine .intro ⟨.of_edges (by decide) (by decide) (by decide) (by decide) (.inr ?_), ?_⟩ ?_ ?_
    · exact Level.acyclic_of_lt (["x", "y"].idxOf ·) (by decide)
    all_goals simp [plain, Node.subflow]
  have hrelisted : fork.Relisted forkReversed := by
    refine .intro ⟨.of_edges (by decide) (by decide) (by decide) (by decide) (.inr ?_), ?_⟩ ?_ ?_
    · exact Level.acyclic_of_lt (["a", "b", "d"].idxOf ·) (by decide)
    · simp [fork, forkReversed, plain, nesting]
    · simp [fork, forkReversed, plain, nesting, Node.subflow]
    · simpa [fork, forkReversed, plain, nesting, Node.subflow] using hinner
  have hends : (({} : Layout).apply fork).isSome := by decide +kernel
  rcases apply_relisted {} hrelisted with ⟨hnone, -⟩ | hsame
  · rw [hnone] at hends
    cases hends
  · exact ⟨hrelisted, hsame⟩

end Layout

end Workflow

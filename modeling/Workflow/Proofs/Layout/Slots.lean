import Mathlib.Data.List.Enum
import Mathlib.Data.List.Sigma
import Workflow.Proofs.Layout.Frame

/-!
# Which places get positions

A layout works with the places of nodes. Each rank is a group of places, and the group hands out its
positions to the places that have none. Groups share no place, so a place gets at most one position.
-/

namespace Workflow

variable {α β : Type} {c : Layout} {l l' : Level} {n : Node} {i j k rank : Nat} {p q : Position}
variable {placed ps : List (Nat × Position)} {group : List (Node × Nat)} {clear : Nat → Bool}

theorem mapM_eq_some {f : α → Option β} {xs : List α} {ys : List β} :
    xs.mapM f = some ys ↔ List.Forall₂ (fun x y => f x = some y) xs ys := by
  induction xs generalizing ys with
  | nil => simp [eq_comm]
  | cons x xs ih =>
    simp only [List.mapM_cons, Option.bind_eq_bind, Option.bind_eq_some_iff, Option.pure_def,
      Option.some.injEq, List.forall₂_cons_left_iff, ih]
    constructor
    · rintro ⟨y, hy, ys, hys, rfl⟩
      exact ⟨y, ys, hy, hys, rfl⟩
    · rintro ⟨y, ys, hy, hys, rfl⟩
      exact ⟨y, hy, ys, hys, rfl⟩

theorem mapM_isSome {f : α → Option β} {xs : List α} :
    (xs.mapM f).isSome ↔ ∀ x ∈ xs, (f x).isSome := by
  induction xs with
  | nil => simp
  | cons x xs ih =>
    rw [List.mapM_cons, List.forall_mem_cons, ← ih]
    cases f x <;> cases xs.mapM f <;> simp

theorem length_ofLevel (l : Level) : (Rank.ofLevel l).length = l.nodes.length := by
  simp [Rank.ofLevel]

namespace Layout

-- ---------------------------------------------------------------------------
-- Slots
-- ---------------------------------------------------------------------------

theorem clearSlots_length {slots : List Nat} (h : clearSlots clear k j = some slots) :
    slots.length = k := by
  induction k generalizing j slots with
  | zero =>
    cases h
    rfl
  | succ k ih =>
    simp only [clearSlots, Option.bind_eq_bind, Option.bind_eq_some_iff, Option.pure_def,
      Option.some.injEq] at h
    obtain ⟨slot, -, rest, hrest, rfl⟩ := h
    rw [List.length_cons, ih hrest]

theorem spread_length [Axis α] {origin spacing : α} {occupied xs : List α}
    (h : spread origin spacing occupied k = some xs) : xs.length = k := by
  obtain ⟨slots, hslots, rfl⟩ := Option.map_eq_some_iff.mp h
  rw [List.length_map, clearSlots_length hslots]

-- ---------------------------------------------------------------------------
-- The places of a rank
-- ---------------------------------------------------------------------------

/-- The nodes of a rank with their places. -/
def rankGroup (l : Level) (rank : Nat) : List (Node × Nat) :=
  ((l.nodes.zipIdx.zip (Rank.ofLevel l)).filter (·.2 == rank)).map (·.1)

theorem mem_rankGroup :
    (n, i) ∈ rankGroup l rank ↔ l.nodes[i]? = some n ∧ (Rank.ofLevel l)[i]? = some rank := by
  simp only [rankGroup, List.mem_map, List.mem_filter, beq_iff_eq]
  constructor
  · rintro ⟨⟨_, r⟩, ⟨hmem, rfl⟩, rfl⟩
    obtain ⟨k, hk⟩ := List.mem_iff_getElem?.mp hmem
    obtain ⟨hn, hr⟩ := List.getElem?_zip_eq_some.mp hk
    simp only [List.getElem?_zipIdx, Nat.zero_add, Option.map_eq_some_iff, Prod.mk.injEq] at hn
    obtain ⟨_, hn, rfl, rfl⟩ := hn
    exact ⟨hn, hr⟩
  · rintro ⟨hn, hr⟩
    refine ⟨((n, i), rank), ⟨List.mem_iff_getElem?.mpr ⟨i, ?_⟩, rfl⟩, rfl⟩
    exact List.getElem?_zip_eq_some.mpr ⟨by simp [List.getElem?_zipIdx, hn], hr⟩

theorem rankGroup_sublist (l : Level) (rank : Nat) : (rankGroup l rank).Sublist l.nodes.zipIdx := by
  have hzip : (l.nodes.zipIdx.zip (Rank.ofLevel l)).map (·.1) = l.nodes.zipIdx :=
    List.map_fst_zip (by simp [length_ofLevel])
  exact hzip ▸ List.filter_sublist.map _

theorem rankGroup_places (l : Level) (rank : Nat) : ((rankGroup l rank).map (·.2)).Nodup :=
  (List.nodup_zipIdx_map_snd l.nodes).sublist ((rankGroup_sublist l rank).map _)

theorem mem_pending : i ∈ pending group ↔ ∃ n, (n, i) ∈ group ∧ n.position = none := by
  simp [pending]

theorem pending_nodup (h : (group.map (·.2)).Nodup) : (pending group).Nodup := by
  have hperm : (pending group).Perm ((group.filter (·.1.position.isNone)).map (·.2)) :=
    (List.mergeSort_perm _ _).map _
  exact hperm.nodup_iff.mpr (h.sublist (List.filter_sublist.map _))

-- ---------------------------------------------------------------------------
-- Positions by places
-- ---------------------------------------------------------------------------

theorem placeRank_eq : c.placeRank rank group =
    (spread (c.secondary c.origin) c.spacing (c.occupied (group.map (·.1)))
      (pending group).length).map fun xs => (pending group).zip
        (xs.map (c.position (Axis.slot (c.primary c.origin) c.rankSpacing rank))) := by
  rw [placeRank, Option.map_eq_bind]
  rfl

theorem placeRank_places (h : c.placeRank rank group = some ps) : ps.map (·.1) = pending group := by
  rw [placeRank_eq] at h
  obtain ⟨xs, hxs, rfl⟩ := Option.map_eq_some_iff.mp h
  rw [List.map_fst_zip]
  rw [List.length_map, spread_length hxs]

theorem placements_eq : c.placements l = ((Rank.ofLevel l).eraseDups.mapM fun rank =>
    c.placeRank rank (rankGroup l rank)).map List.flatten := by
  rw [Option.map_eq_bind]
  rfl

theorem placeLevel_isSome : (c.placeLevel l).isSome ↔ (c.placements l).isSome := by
  rw [placeLevel]
  cases c.placements l <;> rfl

theorem mem_placements (h : c.placements l = some placed) : (i, p) ∈ placed ↔
    ∃ rank ∈ Rank.ofLevel l, ∃ ps, c.placeRank rank (rankGroup l rank) = some ps ∧ (i, p) ∈ ps := by
  rw [placements_eq] at h
  obtain ⟨parts, hparts, rfl⟩ := Option.map_eq_some_iff.mp h
  rw [mapM_eq_some] at hparts
  rw [List.mem_flatten]
  constructor
  · rintro ⟨ps, hps, hmem⟩
    obtain ⟨rank, hrank, hplaced⟩ := exists_of_forall₂ hparts hps
    exact ⟨rank, List.mem_eraseDups.mp hrank, ps, hplaced, hmem⟩
  · rintro ⟨rank, hrank, ps, hplaced, hmem⟩
    obtain ⟨ps', hps', hplaced'⟩ :=
      exists_of_forall₂ hparts.flip (List.mem_eraseDups.mpr hrank)
    cases hplaced.symm.trans hplaced'
    exact ⟨ps, hps', hmem⟩

/-- Only places of nodes without a position get one, and from the group of their rank. -/
theorem placed_in_rank (hps : c.placeRank rank (rankGroup l rank) = some ps) (hp : (i, p) ∈ ps) :
    (Rank.ofLevel l)[i]? = some rank ∧ ∃ n, l.nodes[i]? = some n ∧ n.position = none := by
  have hi : i ∈ pending (rankGroup l rank) := placeRank_places hps ▸ List.mem_map_of_mem hp
  obtain ⟨n, hn, hnone⟩ := mem_pending.mp hi
  obtain ⟨hnode, hrank⟩ := mem_rankGroup.mp hn
  exact ⟨hrank, n, hnode, hnone⟩

theorem placements_unique (h : c.placements l = some placed) (hp : (i, p) ∈ placed)
    (hq : (i, q) ∈ placed) : p = q := by
  obtain ⟨rank, -, ps, hps, hp⟩ := (mem_placements h).mp hp
  obtain ⟨rank', -, qs, hqs, hq⟩ := (mem_placements h).mp hq
  obtain ⟨hrank, -⟩ := placed_in_rank hps hp
  obtain ⟨hrank', -⟩ := placed_in_rank hqs hq
  cases hrank.symm.trans hrank'
  cases hps.symm.trans hqs
  have hnodup : (ps.map (·.1)).Nodup := placeRank_places hps ▸ pending_nodup (rankGroup_places _ _)
  exact congrArg Prod.snd (List.inj_on_of_nodup_map hnodup hp hq rfl)

theorem lookup_placements (h : c.placements l = some placed) :
    placed.lookup i = some p ↔ (i, p) ∈ placed := by
  constructor
  · intro hp
    obtain ⟨before, after, rfl, -⟩ := List.lookup_eq_some_iff.mp hp
    simp
  · intro hp
    cases hq : placed.lookup i with
    | none =>
      have := List.lookup_eq_none_iff.mp hq (i, p) hp
      simp at this
    | some q =>
      obtain ⟨before, after, rfl, -⟩ := List.lookup_eq_some_iff.mp hq
      have hmem : (i, q) ∈ before ++ (i, q) :: after := by simp
      rw [placements_unique h hp hmem]

/-- The node at a place after the layout of its level. -/
def given (placed : List (Nat × Position)) (i : Nat) (n : Node) : Node :=
  match placed.lookup i with
  | some p => { n with position := some p }
  | none => n

theorem placeLevel_ok : c.placeLevel l = some (l', k) ↔ ∃ placed, c.placements l = some placed ∧
    l'.edges = l.edges ∧ (∀ i : Nat, l'.nodes[i]? = l.nodes[i]?.map (given placed i)) ∧
    k = placed.length := by
  obtain ⟨nodes', edges'⟩ := l'
  simp only [placeLevel, Option.bind_eq_bind, Option.bind_eq_some_iff, Option.pure_def,
    Option.some.injEq, Prod.mk.injEq, Level.mk.injEq]
  have hnodes : ∀ placed, (l.nodes.zipIdx.map fun x => given placed x.2 x.1) = nodes' ↔
      ∀ i : Nat, nodes'[i]? = l.nodes[i]?.map (given placed i) := by
    intro placed
    constructor
    · rintro rfl i
      simp [List.getElem?_zipIdx, Function.comp_def]
    · intro h
      refine List.ext_getElem? fun i => ?_
      rw [h]
      simp [List.getElem?_zipIdx, Function.comp_def]
  constructor
  · rintro ⟨placed, hplaced, ⟨h, rfl⟩, rfl⟩
    exact ⟨placed, hplaced, rfl, (hnodes placed).mp h, rfl⟩
  · rintro ⟨placed, hplaced, rfl, h, rfl⟩
    exact ⟨placed, hplaced, ⟨(hnodes placed).mpr h, rfl⟩, rfl⟩

end Layout

end Workflow

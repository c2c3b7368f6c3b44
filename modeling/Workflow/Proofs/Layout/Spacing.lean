import Mathlib.Algebra.Order.Ring.Abs
import Mathlib.Tactic.Linarith
import Mathlib.Tactic.Ring
import Workflow.Proofs.Decimal.Exact
import Workflow.Proofs.Layout.Order
import Workflow.Proofs.Layout.Search

/-!
# Slots in exact arithmetic

In numbers that do not round, a coordinate that is taken blocks at most two slots: those less than
the spacing away from it lie next to each other. So among `m + 2 * q` slots there are `m` clear ones
whatever `q` coordinates are taken, and the search of a rank ends within them. The nodes of the rank
take the least clear slots in the order of their ids.
-/

namespace Workflow.Layout

variable {α : Type} [CommRing α] [LinearOrder α]
variable {c : Layout} {l : Level} {read : Float → α} {origin spacing x : α} {xs : List α}
variable {group : List (Node × Nat)} {m n n' : Node} {i j k rank : Nat} {slots : List Nat}

-- ---------------------------------------------------------------------------
-- Blocked slots
-- ---------------------------------------------------------------------------

/-- Coordinates in exact arithmetic. -/
instance : Axis α where
  slot origin spacing k := origin + k * spacing
  apart spacing a b := decide (spacing ≤ |a - b|)

theorem slot_eq : Axis.slot origin spacing k = origin + k * spacing := rfl

theorem apart_iff {a b : α} : Axis.apart spacing a b = true ↔ spacing ≤ |a - b| :=
  decide_eq_true_iff

theorem isClear_iff : isClear origin spacing xs k = true ↔
    ∀ x ∈ xs, spacing ≤ |x - (origin + k * spacing)| := by
  simp only [isClear, List.all_eq_true, apart_iff, slot_eq]

/-- The numbers below `N` of the slots that are less than the spacing away from a coordinate. -/
def blocked (origin spacing x : α) (N : Nat) : Finset Nat :=
  (Finset.range N).filter fun k => |x - (origin + k * spacing)| < spacing

theorem clearBelow_eq_card (clear : Nat → Bool) (N : Nat) :
    clearBelow clear N = ((Finset.range N).filter fun k => clear k = true).card :=
  Nat.count_eq_card_filter_range _ _

variable [IsStrictOrderedRing α]

/-- Two slots that one coordinate blocks are the same or next to each other. -/
theorem blocked_near (hs : 0 < spacing) (hj : |x - (origin + j * spacing)| < spacing)
    (hk : |x - (origin + k * spacing)| < spacing) : k ≤ j + 1 := by
  obtain ⟨-, hj⟩ := abs_lt.mp hj
  obtain ⟨hk, -⟩ := abs_lt.mp hk
  have hlt : (k : α) * spacing < (j + 2) * spacing := by linarith
  have hlt : (k : α) < j + 2 := lt_of_mul_lt_mul_right hlt hs.le
  have hlt : k < j + 2 := by exact_mod_cast hlt
  omega

theorem card_blocked_le (hs : 0 < spacing) (N : Nat) : (blocked origin spacing x N).card ≤ 2 := by
  rcases (blocked origin spacing x N).eq_empty_or_nonempty with hnone | hsome
  · simp [hnone]
  · obtain ⟨j, hj, hleast⟩ := Finset.exists_min_image _ id hsome
    have hsub : blocked origin spacing x N ⊆ {j, j + 1} := fun k hk => by
      have hle : j ≤ k := hleast k hk
      have hnear := blocked_near hs (Finset.mem_filter.mp hj).2 (Finset.mem_filter.mp hk).2
      rw [Finset.mem_insert, Finset.mem_singleton]
      omega
    exact (Finset.card_le_card hsub).trans Finset.card_le_two

/-- Every coordinate that is taken costs two slots at most. -/
theorem le_clearBelow (hs : 0 < spacing) (N : Nat) :
    N ≤ clearBelow (isClear origin spacing xs) N + 2 * xs.length := by
  induction xs with
  | nil => simp [clearBelow_eq_card, isClear]
  | cons x xs ih =>
    have hsub : ((Finset.range N).filter fun k => isClear origin spacing xs k = true) ⊆
        ((Finset.range N).filter fun k => isClear origin spacing (x :: xs) k = true) ∪
          blocked origin spacing x N := by
      intro k hk
      obtain ⟨hN, hclear⟩ := Finset.mem_filter.mp hk
      rw [Finset.mem_union, blocked, Finset.mem_filter, Finset.mem_filter]
      by_cases hx : |x - (origin + k * spacing)| < spacing
      · exact .inr ⟨hN, hx⟩
      · refine .inl ⟨hN, isClear_iff.mpr (List.forall_mem_cons.mpr ⟨not_lt.mp hx, ?_⟩)⟩
        exact isClear_iff.mp hclear
    have hcard := (Finset.card_le_card hsub).trans (Finset.card_union_le _ _)
    rw [← clearBelow_eq_card, ← clearBelow_eq_card] at hcard
    have hblocked : (blocked origin spacing x N).card ≤ 2 := card_blocked_le hs N
    rw [List.length_cons]
    omega

-- ---------------------------------------------------------------------------
-- The seats of a rank
-- ---------------------------------------------------------------------------

section

variable {β : Type} [Axis β]

/-- Coordinates for the nodes of a rank that have no position, by their places: along the ranks and
across. The numbers of the layout and of the nodes are read as coordinates of any kind. -/
def seatRank (read : Float → β) (c : Layout) (rank : Nat) (group : List (Node × Nat)) :
    Option (List (Nat × β × β)) :=
  (spread (read (c.secondary c.origin)) (read c.spacing) ((c.occupied (group.map (·.1))).map read)
    (pending group).length).map fun xs => (pending group).zip
      (xs.map (Axis.slot (read (c.primary c.origin)) (read c.rankSpacing) rank, ·))

end

/-- With floats as they are these are the positions that a rank hands out. -/
theorem placeRank_eq_seatRank : c.placeRank rank group =
    (c.seatRank id rank group).map fun seats => seats.map fun (i, p) => (i, c.position p.1 p.2) := by
  rw [placeRank_eq, seatRank, Option.map_map, List.map_id]
  refine congrArg (Option.map · _) (funext fun xs => ?_)
  simp [List.zip_map_right, Function.comp_def]

/-- A node of the rank that has no position, and its place. -/
structure Waits (l : Level) (rank : Nat) (n : Node) (i : Nat) : Prop where
  ranked : (n, i) ∈ rankGroup l rank
  unplaced : n.position = none

theorem placeRank_eq_nil (h : rank ∉ Rank.ofLevel l) : c.placeRank rank (rankGroup l rank) = some [] := by
  have hempty : rankGroup l rank = [] := by
    refine List.eq_nil_iff_forall_not_mem.mpr fun ⟨n, i⟩ hn => h ?_
    exact List.mem_of_getElem? (mem_rankGroup.mp hn).2
  rw [hempty, placeRank_eq]
  simp [pending, spread, clearSlots]

/-- The positions of a level are those of its ranks. -/
theorem exists_placed {placed : List (Nat × Position)} (h : c.placements l = some placed)
    (rank : Nat) : ∃ ps, c.placeRank rank (rankGroup l rank) = some ps ∧ ps ⊆ placed := by
  by_cases hrank : rank ∈ Rank.ofLevel l
  · have hall := Option.isSome_of_eq_some h
    rw [placements_eq, Option.isSome_map, mapM_isSome] at hall
    obtain ⟨ps, hps⟩ := Option.isSome_iff_exists.mp (hall rank (List.mem_eraseDups.mpr hrank))
    exact ⟨ps, hps, fun (i, p) hp => (mem_placements h).mpr ⟨rank, hrank, ps, hps, hp⟩⟩
  · exact ⟨[], placeRank_eq_nil hrank, List.nil_subset _⟩

/-- In `l'` every node of the rank that waits has the position of its seat, and the others of the
rank stay where they are. -/
structure TakesSeats (c : Layout) (l : Level) (rank : Nat) (seats : List (Nat × Float × Float))
    (l' : Level) : Prop where
  waiting : ∀ n i, Waits l rank n i → ∃ along across, (i, along, across) ∈ seats ∧
    l'.nodes[i]? = some { n with position := some (c.position along across) }
  positioned : ∀ n i, (n, i) ∈ rankGroup l rank → n.position.isSome → l'.nodes[i]? = some n

theorem placeLevel_seats {l' : Level} (h : c.placeLevel l = some (l', k)) (rank : Nat) :
    ∃ seats, c.seatRank id rank (rankGroup l rank) = some seats ∧
      c.TakesSeats l rank seats l' := by
  obtain ⟨placed, hplaced, -, hnodes, -⟩ := placeLevel_ok.mp h
  obtain ⟨ps, hps, hsub⟩ := exists_placed hplaced rank
  have hplaces := placeRank_places hps
  rw [placeRank_eq_seatRank] at hps
  obtain ⟨seats, hseats, hmap⟩ := Option.map_eq_some_iff.mp hps
  refine ⟨seats, hseats, fun n i hw => ?_, fun n i hn hp => ?_⟩
  · have hi : i ∈ ps.map (·.1) := hplaces ▸ mem_pending.mpr ⟨n, hw.ranked, hw.unplaced⟩
    obtain ⟨⟨i, p⟩, hp, rfl⟩ := List.mem_map.mp hi
    obtain ⟨⟨_, along, across⟩, hseat, heq⟩ := List.mem_map.mp (hmap ▸ hp)
    cases heq
    refine ⟨along, across, hseat, ?_⟩
    have hgiven := (lookup_placements hplaced).mpr (hsub hp)
    rw [hnodes, (mem_rankGroup.mp hw.ranked).1, Option.map_some, given_eq, hgiven, Option.some_or]
  · obtain ⟨p, hp⟩ := Option.isSome_iff_exists.mp hp
    have hnode := (mem_rankGroup.mp hn).1
    have hkept : (placed.lookup i).or n.position = n.position := by
      simpa only [given_eq, hp] using given_kept hplaced hnode hp
    rw [hnodes, hnode, Option.map_some, given_eq, hkept]
    cases n
    rfl

/-- The coordinates that the positioned nodes of the rank take; a position that is no finite number
takes none. -/
def taken (read : Float → α) (c : Layout) (l : Level) (rank : Nat) : List α :=
  (c.occupied ((rankGroup l rank).map (·.1))).map read

/-- The coordinate of a slot. -/
def across (read : Float → α) (c : Layout) (k : Nat) : α :=
  read (c.secondary c.origin) + k * read c.nodeSpacing

/-- A slot that keeps the spacing from every positioned node of the rank. -/
def Free (read : Float → α) (c : Layout) (l : Level) (rank k : Nat) : Prop :=
  ∀ x ∈ c.taken read l rank, read c.nodeSpacing ≤ |x - c.across read k|

/-- Every node of the rank that has no position sits in its slot, at the coordinate of its rank. The
slots follow the ids: each is the least free one above those of the nodes before. The search goes
through as many slots as there are such nodes, and two more for each coordinate that is taken. -/
structure Seated (read : Float → α) (c : Layout) (l : Level) (rank : Nat) (slot : Nat → Nat)
    (seats : List (Nat × α × α)) : Prop where
  seats : ∀ i along across, (i, along, across) ∈ seats ↔ (∃ n, Waits l rank n i) ∧
    along = read (c.primary c.origin) + rank * read c.rankSpacing ∧ across = c.across read (slot i)
  increasing : ∀ n i n' j, Waits l rank n i → Waits l rank n' j → n.id < n'.id → slot i < slot j
  least : ∀ n i, Waits l rank n i → IsLeast
    {k | c.Free read l rank k ∧ ∀ n' j, Waits l rank n' j → n'.id < n.id → slot j < k} (slot i)
  apart : ∀ n i n' j, Waits l rank n i → Waits l rank n' j → i ≠ j →
    read c.nodeSpacing ≤ |c.across read (slot i) - c.across read (slot j)|
  within : ∀ n i, Waits l rank n i →
    slot i < (pending (rankGroup l rank)).length + 2 * (c.taken read l rank).length

theorem spacing_eq (hfinite : c.nodeSpacing.isFinite) (hpos : 0 < c.nodeSpacing) :
    c.spacing = c.nodeSpacing := by
  simp [spacing, hfinite, hpos]

theorem mem_queue_iff : (n, i) ∈ queue (rankGroup l rank) ↔ Waits l rank n i := by
  simp only [queue, List.mem_mergeSort, List.mem_filter, Option.isNone_iff_eq_none]
  exact ⟨fun ⟨h, h'⟩ => ⟨h, h'⟩, fun ⟨h, h'⟩ => ⟨h, h'⟩⟩

theorem Waits.exists_turn (h : Waits l rank n i) :
    ∃ a : Nat, (queue (rankGroup l rank))[a]? = some (n, i) :=
  List.mem_iff_getElem?.mp (mem_queue_iff.mpr h)

theorem queue_ids (hd : l.nodeIds.Nodup) (rank : Nat) :
    ((queue (rankGroup l rank)).map (·.1.id)).Nodup := by
  have hperm : ((queue (rankGroup l rank)).map (·.1.id)).Perm
      (((rankGroup l rank).filter (·.1.position.isNone)).map (·.1.id)) :=
    (List.mergeSort_perm _ _).map _
  exact hperm.nodup_iff.mpr ((rankGroup_ids hd rank).sublist (List.filter_sublist.map _))

/-- Nodes with distinct ids take their turns in the order of their ids. -/
theorem turn_lt_iff (hd : l.nodeIds.Nodup) {a b : Nat}
    (ha : (queue (rankGroup l rank))[a]? = some (n, i))
    (hb : (queue (rankGroup l rank))[b]? = some (n', j)) : n.id < n'.id ↔ a < b := by
  obtain ⟨ha', hna⟩ := List.getElem?_eq_some_iff.mp ha
  obtain ⟨hb', hnb⟩ := List.getElem?_eq_some_iff.mp hb
  have hsorted := List.pairwise_iff_getElem.mp
    (List.pairwise_map.mp (queue_sorted (rankGroup l rank)))
  have hids := queue_ids hd rank
  rw [← String.not_le, ← Nat.not_le]
  refine not_congr ⟨fun hle => ?_, fun hle => ?_⟩
  · by_contra hlt
    have hle' : n.id ≤ n'.id := by
      simpa [hna, hnb] using hsorted a b ha' hb' (Nat.lt_of_not_le hlt)
    have hsame : ((queue (rankGroup l rank)).map (·.1.id))[a]? =
        ((queue (rankGroup l rank)).map (·.1.id))[b]? := by
      simp [ha, hb, String.le_antisymm hle' hle]
    have hab := (List.getElem?_inj (by simpa) hids).mp hsame
    omega
  · rcases hle.eq_or_lt with rfl | hlt
    · cases ha.symm.trans hb
      exact String.le_refl _
    · simpa [hna, hnb] using hsorted b a hb' ha' hlt

theorem exists_numbering {places : List Nat} (hd : places.Nodup)
    (hlen : slots.length = places.length) : ∃ slot : Nat → Nat, slots = places.map slot := by
  refine ⟨fun i => slots.getD (places.idxOf i) 0, List.ext_getElem (by simp [hlen]) ?_⟩
  intro a ha ha'
  simp only [List.length_map] at ha'
  simp [hd.idxOf_getElem a ha', ha]

theorem across_apart (hread : 0 < read c.nodeSpacing) (hij : i ≠ j) :
    read c.nodeSpacing ≤ |c.across read i - c.across read j| := by
  wlog hlt : j < i generalizing i j
  · rw [abs_sub_comm]
    exact this hij.symm (by omega)
  have hone : (1 : α) ≤ i - j := by
    rw [le_sub_iff_add_le, add_comm]
    exact_mod_cast hlt
  calc read c.nodeSpacing
      = 1 * read c.nodeSpacing := (one_mul _).symm
    _ ≤ (i - j) * read c.nodeSpacing := mul_le_mul_of_nonneg_right hone hread.le
    _ = c.across read i - c.across read j := by rw [across, across]; ring
    _ ≤ |c.across read i - c.across read j| := le_abs_self _

theorem length_pending (group : List (Node × Nat)) :
    (pending group).length = group.countP fun x => x.1.position.isNone := by
  simp [pending, List.countP_eq_length_filter]

theorem waiting_add_taken_le (c : Layout) (group : List (Node × Nat)) :
    (pending group).length + (c.occupied (group.map (·.1))).length ≤ group.length := by
  have htaken : (c.occupied (group.map (·.1))).length ≤
      group.countP fun x => ¬ x.1.position.isNone := by
    rw [occupied, List.length_filterMap_eq_countP, List.countP_map]
    refine List.countP_mono_left fun x _ hx => ?_
    cases hp : x.1.position <;> simp [hp] at hx ⊢
  rw [List.length_eq_countP_add_countP fun x : Node × Nat => x.1.position.isNone, length_pending]
  exact Nat.add_le_add_left htaken _

/-- Which slots are free, as the search asks it. -/
def clearAt (read : Float → α) (c : Layout) (l : Level) (rank : Nat) : Nat → Bool :=
  isClear (read (c.secondary c.origin)) (read c.nodeSpacing) (c.taken read l rank)

omit [IsStrictOrderedRing α] in
theorem free_iff : c.Free read l rank k ↔ c.clearAt read l rank k = true := by
  rw [clearAt, isClear_iff]
  rfl

/-- The search of a rank ends, and the node whose turn comes after `a` others gets the free slot
that comes after `a` others. -/
theorem exists_slots (hspacing : c.spacing = c.nodeSpacing) (hread : 0 < read c.nodeSpacing)
    (hsize : 2 * l.nodes.length ≤ slotCount) (rank : Nat) : ∃ slot : Nat → Nat,
      c.seatRank read rank (rankGroup l rank) = some ((pending (rankGroup l rank)).map fun i =>
        (i, read (c.primary c.origin) + rank * read c.rankSpacing, c.across read (slot i))) ∧
      ∀ (a : Nat) n i, (queue (rankGroup l rank))[a]? = some (n, i) →
        c.Free read l rank (slot i) ∧ clearBelow (c.clearAt read l rank) (slot i) = a := by
  have hroom : clearBelow (c.clearAt read l rank) 0 + (pending (rankGroup l rank)).length ≤
      clearBelow (c.clearAt read l rank) slotCount := by
    have hcount : slotCount ≤ clearBelow (c.clearAt read l rank) slotCount +
        2 * (c.taken read l rank).length := le_clearBelow hread slotCount
    have hnodes := (waiting_add_taken_le c (rankGroup l rank)).trans
      ((rankGroup_sublist l rank).length_le)
    rw [List.length_zipIdx] at hnodes
    rw [taken, List.length_map] at hcount
    rw [clearBelow_zero]
    omega
  have hsome := (clearSlots_isSome_iff (Nat.zero_le _)).mpr hroom
  obtain ⟨slots, hslots⟩ := Option.isSome_iff_exists.mp hsome
  obtain ⟨slot, rfl⟩ := exists_numbering (pending_nodup (rankGroup_places l rank))
    (clearSlots_length hslots)
  refine ⟨slot, ?_, fun a n i hturn => ?_⟩
  · have hspread : spread (read (c.secondary c.origin)) (read c.spacing) (c.taken read l rank)
        (pending (rankGroup l rank)).length =
          some (((pending (rankGroup l rank)).map slot).map (c.across read)) := by
      rw [spread, hspacing]
      exact Option.map_eq_some_iff.mpr ⟨_, hslots, rfl⟩
    rw [taken] at hspread
    rw [seatRank, hspread, Option.map_some, List.map_map, List.map_map, ← List.map_prod_left_eq_zip]
    rfl
  · have hslot : ((pending (rankGroup l rank)).map slot)[a]? = some (slot i) := by
      simp [pending_eq, hturn]
    obtain ⟨hclear, -, hbelow⟩ := clearSlots_ok hslots hslot
    rw [clearBelow_zero, Nat.zero_add] at hbelow
    exact ⟨free_iff.mpr hclear, hbelow⟩

section

variable {slot : Nat → Nat}
variable (hslot : ∀ (a : Nat) n i, (queue (rankGroup l rank))[a]? = some (n, i) →
  c.Free read l rank (slot i) ∧ clearBelow (c.clearAt read l rank) (slot i) = a)
include hslot

omit [IsStrictOrderedRing α] in
theorem slot_ne (hi : Waits l rank n i) (hj : Waits l rank n' j) (hij : i ≠ j) :
    slot i ≠ slot j := by
  obtain ⟨a, ha⟩ := hi.exists_turn
  obtain ⟨b, hb⟩ := hj.exists_turn
  intro hsame
  have hab : a = b := by rw [← (hslot a n i ha).2, ← (hslot b n' j hb).2, hsame]
  subst hab
  cases ha.symm.trans hb
  exact hij rfl

theorem slot_within (hread : 0 < read c.nodeSpacing) (hi : Waits l rank n i) :
    slot i < (pending (rankGroup l rank)).length + 2 * (c.taken read l rank).length := by
  obtain ⟨a, ha⟩ := hi.exists_turn
  obtain ⟨hlen, -⟩ := List.getElem?_eq_some_iff.mp ha
  rw [pending_eq, List.length_map]
  generalize (queue (rankGroup l rank)).length = turns at hlen
  have hcount : turns + 2 * (c.taken read l rank).length ≤ clearBelow (c.clearAt read l rank)
      (turns + 2 * (c.taken read l rank).length) + 2 * (c.taken read l rank).length :=
    le_clearBelow hread _
  refine lt_of_clearBelow_lt (?_ : clearBelow (c.clearAt read l rank) _ < _)
  rw [(hslot a n i ha).2]
  omega

variable (hd : l.nodeIds.Nodup)
include hd

omit [IsStrictOrderedRing α] in
theorem slot_lt (hi : Waits l rank n i) (hj : Waits l rank n' j) (hid : n.id < n'.id) :
    slot i < slot j := by
  obtain ⟨a, ha⟩ := hi.exists_turn
  obtain ⟨b, hb⟩ := hj.exists_turn
  have hlt : clearBelow (c.clearAt read l rank) (slot i) <
      clearBelow (c.clearAt read l rank) (slot j) := by
    rw [(hslot a n i ha).2, (hslot b n' j hb).2]
    exact (turn_lt_iff hd ha hb).mp hid
  exact lt_of_clearBelow_lt hlt

omit [IsStrictOrderedRing α] in
theorem slot_least (hi : Waits l rank n i) : IsLeast
    {k | c.Free read l rank k ∧ ∀ n' j, Waits l rank n' j → n'.id < n.id → slot j < k} (slot i) := by
  obtain ⟨a, ha⟩ := hi.exists_turn
  obtain ⟨hfree, hbelow⟩ := hslot a n i ha
  refine ⟨⟨hfree, fun n' j hj hid => slot_lt hslot hd hj hi hid⟩, fun k ⟨hk, habove⟩ => ?_⟩
  by_contra hlt
  -- A free number below the slot of `n` comes after fewer than `a` others, so it is the slot of a
  -- node whose turn is before that of `n`.
  have hturn : clearBelow (c.clearAt read l rank) k < a := by
    rw [← hbelow]
    exact clearBelow_lt (free_iff.mp hk) (Nat.lt_of_not_le hlt)
  obtain ⟨hlen, -⟩ := List.getElem?_eq_some_iff.mp ha
  obtain ⟨⟨n', j⟩, hb⟩ : ∃ x, (queue (rankGroup l rank))[clearBelow (c.clearAt read l rank) k]? =
      some x := ⟨_, List.getElem?_eq_getElem (hturn.trans hlen)⟩
  have hj : Waits l rank n' j := mem_queue_iff.mp (List.mem_of_getElem? hb)
  have hjk := clearBelow_lt (free_iff.mp (hslot _ n' j hb).1)
    (habove n' j hj ((turn_lt_iff hd hb ha).mpr hturn))
  rw [(hslot _ n' j hb).2] at hjk
  exact hjk.false

end

/-- Two nodes of one rank without a position, and two with one. -/
def bench : Level where
  nodes := [plain "c", { plain "b" with position := some ⟨300, 120⟩ }, plain "a",
    { plain "d" with position := some ⟨300, 500⟩ }]
  edges := []

end Workflow.Layout

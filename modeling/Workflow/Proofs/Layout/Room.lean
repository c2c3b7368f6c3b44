import Workflow.Proofs.Decimal.Exact
import Workflow.Proofs.Layout.Spacing

/-!
# When a layout ends

A layout ends exactly if each rank has as many clear slots as it has nodes to place. A rank has them
wherever the far slots are clear. That is so for all coordinates that lie near the origin compared to
the numbers of the far slots, and for an infinite origin. It is not so for an origin that is no
number: then a single coordinate that is taken blocks every slot.
-/

namespace Workflow.Layout

open Workflow.Decimal (value AtLeast)

variable {c : Layout} {l sub : Level} {n : Node} {group : List (Node × Nat)} {rank k : Nat}
variable {x origin spacing : Float} {xs : List Float} {P Q : Level → Prop}

-- ---------------------------------------------------------------------------
-- One condition for each rank
-- ---------------------------------------------------------------------------

/-- A rank has as many clear slots as nodes that have no position. -/
def Roomy (c : Layout) (l : Level) (rank : Nat) : Prop :=
  (pending (rankGroup l rank)).length ≤ clearBelow
    (isClear (c.secondary c.origin) c.spacing (c.occupied ((rankGroup l rank).map (·.1)))) slotCount

/-- `P` holds of every level that the layout of a level goes to. -/
def Visits (c : Layout) (P : Level → Prop) (l : Level) : Prop :=
  P l ∧ (c.recurse → l.Everywhere P)

theorem everywhere_and (hP : l.Everywhere P) (hQ : l.Everywhere Q) :
    l.Everywhere fun l => P l ∧ Q l := by
  induction hP with
  | intro hP _ ih =>
    exact .intro ⟨hP, hQ.here⟩ fun n hn sub hs => ih n hn sub hs (hQ.inside hn hs)

theorem Visits.and (hP : c.Visits P l) (hQ : c.Visits Q l) : c.Visits (fun l => P l ∧ Q l) l :=
  ⟨⟨hP.1, hQ.1⟩, fun hc => everywhere_and (hP.2 hc) (hQ.2 hc)⟩

theorem Visits.mono (hPQ : ∀ l, P l → Q l) (h : c.Visits P l) : c.Visits Q l :=
  ⟨hPQ l h.1, fun hc => (h.2 hc).mono hPQ⟩

theorem placeRank_isSome_iff : (c.placeRank rank (rankGroup l rank)).isSome ↔ c.Roomy l rank := by
  rw [placeRank_eq, Option.isSome_map, spread, Option.isSome_map,
    clearSlots_isSome_iff (Nat.zero_le _), clearBelow_zero, Nat.zero_add]
  rfl

theorem rankGroup_eq_nil (h : rank ∉ Rank.ofLevel l) : rankGroup l rank = [] := by
  rw [List.eq_nil_iff_forall_not_mem]
  rintro ⟨n, i⟩ hn
  exact h (List.mem_of_getElem? (mem_rankGroup.mp hn).2)

theorem placements_isSome_iff : (c.placements l).isSome ↔ ∀ rank, c.Roomy l rank := by
  rw [placements_eq, Option.isSome_map, mapM_isSome]
  simp only [List.mem_eraseDups, placeRank_isSome_iff]
  refine ⟨fun h rank => ?_, fun h rank _ => h rank⟩
  by_cases hrank : rank ∈ Rank.ofLevel l
  · exact h rank hrank
  · rw [Roomy, rankGroup_eq_nil hrank, length_pending]
    exact Nat.zero_le _

theorem rankGroup_laid (c : Layout) (l : Level) (rank : Nat) :
    rankGroup ⟨l.nodes.map c.laid, l.edges⟩ rank =
      (rankGroup l rank).map fun x => (c.laid x.1, x.2) := by
  have hranks : Rank.ofLevel ⟨l.nodes.map c.laid, l.edges⟩ = Rank.ofLevel l := by
    simp [Rank.ofLevel, Level.nodeIds, Function.comp_def]
  simp only [rankGroup, hranks, List.zipIdx_map, List.zip_map_left, List.filter_map, List.map_map]
  rfl

/-- What is placed inside a level does not bear on its own ranks. -/
theorem roomy_laid : c.Roomy ⟨l.nodes.map c.laid, l.edges⟩ rank ↔ c.Roomy l rank := by
  have hpending : (pending ((rankGroup l rank).map fun x => (c.laid x.1, x.2))).length =
      (pending (rankGroup l rank)).length := by
    simp only [length_pending, List.countP_map, Function.comp_def, laid_position]
  have hoccupied : c.occupied (((rankGroup l rank).map fun x => (c.laid x.1, x.2)).map (·.1)) =
      c.occupied ((rankGroup l rank).map (·.1)) := by
    simp only [occupied, List.map_map, List.filterMap_map, Function.comp_def, laid_position]
  rw [Roomy, Roomy, rankGroup_laid, hpending, hoccupied]

theorem apply_isSome_iff : (c.apply l).isSome ↔ c.Visits (fun l => ∀ rank, c.Roomy l rank) l := by
  have hlevel (l : Level) : (c.apply l).isSome ↔
      (∀ n ∈ l.nodes, c.Ends n) ∧ ∀ rank, c.Roomy l rank := by
    simp only [apply_isSome, placements_isSome_iff, roomy_laid]
  induction l using Level.induction with
  | h l ih =>
    rw [hlevel]
    constructor
    · rintro ⟨hends, hroom⟩
      refine ⟨hroom, fun hc => .intro hroom fun n hn sub hs => ?_⟩
      exact ((ih n hn sub hs).mp (hends n hn hc sub hs)).2 hc
    · rintro ⟨hroom, hinside⟩
      refine ⟨fun n hn hc sub hs => (ih n hn sub hs).mpr ?_, hroom⟩
      have hsub := (hinside hc).inside hn hs
      exact ⟨hsub.here, fun _ => hsub⟩

-- ---------------------------------------------------------------------------
-- Clear slots
-- ---------------------------------------------------------------------------

theorem isClear_float : isClear origin spacing xs k = true ↔
    ∀ x ∈ xs, spacing ≤ (x - (origin + Float.ofNat k * spacing)).abs := by
  simp only [isClear, List.all_eq_true]
  exact forall₂_congr fun x _ => decide_eq_true_iff

theorem spacing_isFinite (c : Layout) : c.spacing.isFinite := by
  unfold spacing
  split
  · rename_i h
    exact (Bool.and_eq_true_iff.mp h).1
  · decide +kernel

theorem spacing_pos (c : Layout) : 0 < value c.spacing := by
  refine Decimal.value_pos c.spacing_isFinite ?_
  unfold spacing
  split
  · rename_i h
    exact of_decide_eq_true (Bool.and_eq_true_iff.mp h).2
  · decide +kernel

section

variable (hfinite : spacing.isFinite) (hpos : 0 < value spacing)
include hfinite hpos

/-- The numbers of the far slots are large, and so are their multiples of the spacing. -/
theorem multiple_atLeast (hk : 2 ^ 63 ≤ k) :
    AtLeast (2 ^ 63 * value spacing) (Float.ofNat k * spacing) :=
  have hspacing := Decimal.representable_value hfinite hpos
  (Decimal.ofNat_atLeast hk).mul (Decimal.atLeast_value hfinite hpos) hpos (hspacing.scale 63) le_rfl

/-- A far slot is clear of what lies near the origin. -/
theorem far_of_near (hk : 2 ^ 63 ≤ k) (ho : origin.isFinite) (hx : x.isFinite)
    (hlow : -(2 ^ 61 * value spacing) ≤ value origin) (hhigh : value x ≤ 2 ^ 61 * value spacing) :
    spacing ≤ (x - (origin + Float.ofNat k * spacing)).abs := by
  have hspacing := Decimal.representable_value hfinite hpos
  have hslot : AtLeast (2 ^ 62 * value spacing) (origin + Float.ofNat k * spacing) :=
    (multiple_atLeast hfinite hpos hk).add ho (hspacing.scale 62) (by linarith)
  have hapart := AtLeast.sub hx hslot hspacing (by linarith)
  exact (AtLeast.abs hapart).le hfinite hpos le_rfl

theorem far_of_infinite {s : Float.Model.UnpackedFloat.Sign} (hx : x.isFinite)
    (hslot : (origin + Float.ofNat k * spacing).toModel.unpack = .infinity s) :
    spacing ≤ (x - (origin + Float.ofNat k * spacing)).abs :=
  (AtLeast.abs (Decimal.unpack_sub_infinity hx hslot)).le hfinite hpos le_rfl

end

theorem not_clear_of_isNaN (ho : origin.isNaN) (hx : x ∈ xs) :
    isClear origin spacing xs k = false := by
  have hslot := Decimal.add_isNaN ho (Float.ofNat k * spacing)
  rw [← Bool.not_eq_true, isClear_float]
  exact fun hall => Decimal.not_le_of_isNaN _ (Decimal.abs_isNaN (Decimal.sub_isNaN x hslot))
    (hall x hx)

-- ---------------------------------------------------------------------------
-- Ranks with room
-- ---------------------------------------------------------------------------

/-- The rank has a node without a position, and one whose coordinate is taken. -/
def Mixed (c : Layout) (l : Level) (rank : Nat) : Prop :=
  (∃ n i, Waits l rank n i) ∧
    ∃ n i p, (n, i) ∈ rankGroup l rank ∧ n.position = some p ∧ (c.secondary p).isFinite

theorem mem_occupied : x ∈ c.occupied (group.map (·.1)) ↔
    ∃ n i p, (n, i) ∈ group ∧ n.position = some p ∧ (c.secondary p).isFinite ∧ x = c.secondary p := by
  simp only [occupied, List.mem_filterMap, List.mem_map, Option.filter_eq_some_iff,
    Option.map_eq_some_iff, Prod.exists]
  constructor
  · rintro ⟨_, ⟨n, i, hn, rfl⟩, ⟨p, hp, rfl⟩, hfinite⟩
    exact ⟨n, i, p, hn, hp, hfinite, rfl⟩
  · rintro ⟨n, i, p, hn, hp, hfinite, rfl⟩
    exact ⟨n, ⟨n, i, hn, rfl⟩, ⟨p, hp, rfl⟩, hfinite⟩

/-- There is room among the far slots if they are clear, since a level in memory has fewer nodes. -/
theorem roomy_of_far (hsize : l.nodes.length ≤ 2 ^ 63)
    (h : ∀ n i p, (n, i) ∈ rankGroup l rank → n.position = some p → (c.secondary p).isFinite →
      ∀ k, 2 ^ 63 ≤ k → k < slotCount →
        c.spacing ≤ (c.secondary p - (c.secondary c.origin + Float.ofNat k * c.spacing)).abs) :
    c.Roomy l rank := by
  have hnodes := (waiting_add_taken_le c (rankGroup l rank)).trans
    ((rankGroup_sublist l rank).length_le)
  rw [List.length_zipIdx] at hnodes
  have hcount : slotCount = 2 ^ 63 + 2 ^ 63 := by decide
  have hfar : 2 ^ 63 ≤ clearBelow (isClear (c.secondary c.origin) c.spacing
      (c.occupied ((rankGroup l rank).map (·.1)))) slotCount := by
    rw [hcount]
    refine le_clearBelow_of_clear fun k hk hk' => isClear_float.mpr fun x hx => ?_
    obtain ⟨n, i, p, hn, hp, hfinite, rfl⟩ := mem_occupied.mp hx
    exact h n i p hn hp hfinite k hk (hcount ▸ hk')
  rw [Roomy]
  omega

theorem roomy_of_not_mixed (hsize : l.nodes.length ≤ 2 ^ 63) (h : ¬ c.Mixed l rank) :
    c.Roomy l rank := by
  by_cases hwaits : ∃ n i, Waits l rank n i
  · exact roomy_of_far hsize fun n i p hn hp hfinite => absurd ⟨hwaits, n, i, p, hn, hp, hfinite⟩ h
  · have hnone : pending (rankGroup l rank) = [] := by
      rw [List.eq_nil_iff_forall_not_mem]
      intro i hi
      obtain ⟨n, hn, hp⟩ := mem_pending.mp hi
      exact hwaits ⟨n, i, hn, hp⟩
    rw [Roomy, hnone]
    exact Nat.zero_le _

/-- An origin that is no number leaves no slot clear in a rank that is mixed. -/
theorem not_roomy_of_isNaN (ho : (c.secondary c.origin).isNaN) (h : c.Mixed l rank) :
    ¬ c.Roomy l rank := by
  obtain ⟨⟨n, i, hn, hnone⟩, n', j, p, hn', hp, hfinite⟩ := h
  have hx : c.secondary p ∈ c.occupied ((rankGroup l rank).map (·.1)) :=
    mem_occupied.mpr ⟨n', j, p, hn', hp, hfinite, rfl⟩
  have hblocked : clearBelow (isClear (c.secondary c.origin) c.spacing
      (c.occupied ((rankGroup l rank).map (·.1)))) slotCount = 0 := by
    rw [clearBelow, Nat.count_iff_forall_not]
    exact fun k _ => Bool.not_eq_true _ ▸ not_clear_of_isNaN ho hx
  have hwaits : 0 < (pending (rankGroup l rank)).length :=
    List.length_pos_of_mem (mem_pending.mpr ⟨n, hn, hnone⟩)
  rw [Roomy, hblocked]
  omega

/-- What is enough for a layout to find its slots: no rank is mixed; or the origin is infinite, and
no multiple of the spacing cancels it; or it is finite, and coordinates do not lie too far out for
the spacing. -/
inductive Anchored (c : Layout) (l : Level) : Prop
  | unmixed (h : c.Visits (fun l => ∀ rank, ¬ c.Mixed l rank) l)
  | infinite (ho : (c.secondary c.origin).isInf) (hcancel : 0 < c.secondary c.origin ∨
      ∀ k < slotCount, (Float.ofNat k * c.spacing).isFinite)
  | near (ho : (c.secondary c.origin).isFinite)
      (hlow : -(2 ^ 61 * value c.spacing) ≤ value (c.secondary c.origin))
      (hhigh : c.Visits (fun l => ∀ n ∈ l.nodes, ∀ p, n.position = some p →
        value (c.secondary p) ≤ 2 ^ 61 * value c.spacing) l)

theorem Anchored.roomy (h : c.Anchored l) (hsize : c.Visits (fun l => l.nodes.length ≤ 2 ^ 63) l) :
    c.Visits (fun l => ∀ rank, c.Roomy l rank) l := by
  cases h with
  | unmixed h => exact (hsize.and h).mono fun l ⟨hsize, h⟩ rank => roomy_of_not_mixed hsize (h rank)
  | infinite ho hcancel =>
    refine hsize.mono fun l hsize rank => roomy_of_far hsize fun n i p hn hp hfinite k hk hk' => ?_
    rcases hcancel with hpos | hmultiples
    · refine far_of_infinite c.spacing_isFinite c.spacing_pos hfinite (s := .positive) ?_
      exact (multiple_atLeast c.spacing_isFinite c.spacing_pos hk).infinity_add
        (Decimal.isInf_positive ho hpos)
    · obtain ⟨s, hs⟩ := Decimal.isInf_iff.mp ho
      exact far_of_infinite c.spacing_isFinite c.spacing_pos hfinite
        (Decimal.unpack_add_infinity hs (hmultiples k hk'))
  | near ho hlow hhigh =>
    refine (hsize.and hhigh).mono fun l ⟨hsize, hhigh⟩ rank => roomy_of_far hsize ?_
    intro n i p hn hp hfinite k hk _
    have hnode := List.mem_of_getElem? (mem_rankGroup.mp hn).1
    exact far_of_near c.spacing_isFinite c.spacing_pos hk ho hfinite hlow (hhigh n hnode p hp)

/-- A layout ends exactly if there is room in each rank of every level that it goes to. An origin
that is no number leaves room only where no rank is mixed; any other leaves room unless it or some
coordinate lies too far out for the spacing. -/
theorem apply_ends (c : Layout) (l : Level) :
    ((c.apply l).isSome ↔ c.Visits (fun l => ∀ rank, c.Roomy l rank) l) ∧
    ((c.secondary c.origin).isNaN → (c.apply l).isSome →
      c.Visits (fun l => ∀ rank, ¬ c.Mixed l rank) l) ∧
    (c.Visits (fun l => l.nodes.length ≤ 2 ^ 63) l → c.Anchored l → (c.apply l).isSome) := by
  refine ⟨apply_isSome_iff, fun ho h => ?nan, fun hsize h => apply_isSome_iff.mpr (h.roomy hsize)⟩
  case nan =>
    refine (apply_isSome_iff.mp h).mono fun l hroom rank hmixed => ?_
    exact not_roomy_of_isNaN ho hmixed (hroom rank)

/-- Two nodes of one rank, one with a position. -/
def pair : Level where
  nodes := [plain "a", { plain "b" with position := some ⟨1, 2⟩ }]
  edges := []

theorem visits_pair (c : Layout) (h : P pair) : c.Visits P pair :=
  ⟨h, fun _ => .intro h (by simp [pair, plain, Node.subflow])⟩

theorem mixed_pair (h : (c.secondary ⟨1, 2⟩).isFinite) : c.Mixed pair 0 := by
  have hranks : Rank.ofLevel pair = [0, 0] := by decide +kernel
  refine ⟨⟨plain "a", 0, mem_rankGroup.mpr ⟨rfl, by rw [hranks]; rfl⟩, rfl⟩, ?_⟩
  exact ⟨_, 1, ⟨1, 2⟩, mem_rankGroup.mpr ⟨rfl, by rw [hranks]; rfl⟩, rfl, h⟩

/-- With the default origin, and with one that is infinite. -/
theorem apply_ends_pair : ({} : Layout).Visits (fun l => l.nodes.length ≤ 2 ^ 63) pair ∧
    ({} : Layout).Mixed pair 0 ∧ ({} : Layout).Anchored pair ∧ (({} : Layout).apply pair).isSome ∧
    ({ origin := ⟨0, 1 / 0⟩ } : Layout).Anchored pair ∧
    (({ origin := ⟨0, 1 / 0⟩ } : Layout).apply pair).isSome := by
  have hsize (c : Layout) : c.Visits (fun l => l.nodes.length ≤ 2 ^ 63) pair :=
    visits_pair c (by decide)
  have hnear : ({} : Layout).Anchored pair := by
    refine .near (by decide +kernel) (by decide +kernel) (visits_pair _ ?_)
    simp only [pair, plain, List.forall_mem_cons, reduceCtorEq, Option.some.injEq, forall_eq']
    exact ⟨fun _ => False.elim, by decide +kernel, by simp⟩
  have hinfinite : ({ origin := ⟨0, 1 / 0⟩ } : Layout).Anchored pair :=
    .infinite (by decide +kernel) (.inl (by decide +kernel))
  obtain ⟨-, -, hends⟩ := apply_ends {} pair
  obtain ⟨-, -, hends'⟩ := apply_ends { origin := ⟨0, 1 / 0⟩ } pair
  exact ⟨hsize _, mixed_pair (by decide +kernel), hnear, hends (hsize _) hnear, hinfinite,
    hends' (hsize _) hinfinite⟩

/-- The origin of this layout is no number. -/
def adrift : Layout := { origin := ⟨0, 0 / 0⟩ }

/-- The rank of the two nodes is mixed, and no slot keeps its distance. -/
theorem apply_adrift : (adrift.secondary adrift.origin).isNaN ∧ adrift.apply pair = none := by
  have hnan : (adrift.secondary adrift.origin).isNaN := by decide +kernel
  refine ⟨hnan, Option.not_isSome_iff_eq_none.mp fun h => ?_⟩
  exact not_roomy_of_isNaN hnan (mixed_pair (by decide +kernel)) ((apply_isSome_iff.mp h).1 0)

end Workflow.Layout

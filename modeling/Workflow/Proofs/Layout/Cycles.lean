import Workflow.Proofs.Layout.Longest

/-!
# Ranks where there are cycles

A connection goes up in rank unless it starts on a cycle or behind one (`descents_behind_cycles`).
However cyclic a level is, no rank below another is left out (`ranks_gap_free`).
-/

namespace Workflow

open Relation (TransGen ReflTransGen)

variable {l : Level} {a b e id : String} {preds : Array (List Nat)} {r s t : Rank.Ranks}
variable {i j k m n p : Nat}

namespace Level

section

variable (hd : l.nodeIds.Nodup)
include hd

/-- Connections go up in rank but for those that start on a cycle or behind one. Such a one may lead
to a node at which a round has cut while its source had no rank, whether or not the node is on a
cycle. Where no cycle leads to, a node ranks by the longest chain that ends at it. -/
theorem descents_behind_cycles :
    (∀ a b, l.Arc a b → ¬ l.BehindCycle a → ∃ j k, l.Ranked a j ∧ l.Ranked b k ∧ j < k) ∧
    (∀ b ∈ l.nodeIds, ¬ l.BehindCycle b → ∃ k, l.Ranked b k ∧ l.Longest b k) ∧
    ∀ a b j k, l.Arc a b → l.Ranked a j → l.Ranked b k → k ≤ j →
      ∃ n, Rank.Cuts l n ∧ l.CutAt n b ∧ l.Unranked n a := by
  refine ⟨fun a b hab hnot => ?_, fun b hb hnot => ?_, fun a b j k hab ha hb hle => ?_⟩
  · obtain ⟨j, hj⟩ := exists_ranked hab.source
    obtain ⟨k, hk⟩ := exists_ranked hab.target
    exact ⟨j, k, hj, hk, hab.rank_lt_of_not_behindCycle hd hnot hj hk⟩
  · obtain ⟨k, hk⟩ := exists_ranked hb
    exact ⟨k, hk, hk.exists_chain hd, fun n h => h.le_rank_of_not_behindCycle hd hnot hk⟩
  · obtain ⟨n, hcut, hun⟩ := hab.cut_of_le hd ha hb hle
    exact ⟨n, hcut.cuts, hcut, hun⟩

end

/-- A loop with an exit that can also be reached past the loop, and that is listed before it. -/
def loop : Level where
  nodes := [{ id := "entry", kind := .decision }, { id := "exit", kind := .decision },
    { id := "head", kind := .decision }, { id := "body", kind := .decision }]
  edges := [{ id := "1", source := "entry", target := "exit" },
    { id := "2", source := "entry", target := "head" },
    { id := "3", source := "head", target := "body" },
    { id := "4", source := "body", target := "head" },
    { id := "5", source := "body", target := "exit" }]

theorem ranks_loop : Rank.ofLevel loop = [0, 1, 1, 2] := by decide +kernel

theorem descents_behind_cycles_loop : loop.nodeIds.Nodup ∧ ¬ loop.BehindCycle "entry" ∧
    loop.Longest "entry" 0 ∧ loop.Ranked "body" 2 ∧ loop.Ranked "exit" 1 ∧
    ∃ n, loop.CutAt n "exit" ∧ loop.Unranked n "body" := by
  have hd : loop.nodeIds.Nodup := by decide
  have hentry : ∀ a, ¬ loop.Arc a "entry" := by
    have hne : ∀ a b, loop.Arc a b → b ≠ "entry" := forall_arc.mpr (by decide)
    exact fun a hab => hne a _ hab rfl
  have hnot : ¬ loop.BehindCycle "entry" := by
    rintro ⟨c, hcycle, hc⟩
    rcases ReflTransGen.cases_tail hc with rfl | ⟨a, -, ha⟩
    · obtain ⟨a, -, ha⟩ := TransGen.tail'_iff.mp hcycle
      exact hentry a ha
    · exact hentry a ha
  have hbody : loop.Ranked "body" 2 := ⟨3, rfl, by rw [ranks_loop]; rfl⟩
  have hexit : loop.Ranked "exit" 1 := ⟨1, rfl, by rw [ranks_loop]; rfl⟩
  obtain ⟨-, hlongest, hcut⟩ := descents_behind_cycles hd
  obtain ⟨k, hk, hk'⟩ := hlongest "entry" (by decide) hnot
  have hzero : loop.Ranked "entry" 0 := ⟨0, rfl, by rw [ranks_loop]; rfl⟩
  cases hzero.unique hd hk
  obtain ⟨n, -, hat, hun⟩ := hcut "body" "exit" 2 1 (by decide) hbody hexit (by decide)
  exact ⟨hd, hnot, hk', hbody, hexit, n, hat, hun⟩

/-- The edge from the body of the loop to its exit is on no cycle, and yet the exit is placed
before the body: the first cut is made at the exit, and cuts no cycle. -/
theorem exit_ranked_before_loop : loop.nodeIds.Nodup ∧ loop.Arc "body" "exit" ∧
    ¬ ReflTransGen loop.Arc "exit" "body" ∧ loop.Ranked "body" 2 ∧ loop.Ranked "exit" 1 := by
  refine ⟨by decide, by decide, fun hback => ?_, ⟨3, rfl, ?_⟩, ⟨1, rfl, ?_⟩⟩
  · have hne : ∀ a b, loop.Arc a b → a ≠ "exit" := forall_arc.mpr (by decide)
    rcases ReflTransGen.cases_head hback with heq | ⟨c, hc, -⟩
    · exact absurd heq (by decide)
    · exact hne _ c hc rfl
  all_goals rw [ranks_loop]; rfl

-- ---------------------------------------------------------------------------
-- No rank is left out
-- ---------------------------------------------------------------------------

theorem exists_ranked_iff : (∃ id, l.Ranked id k) ↔ k ∈ Rank.ofLevel l := by
  constructor
  · rintro ⟨id, i, -, hk⟩
    exact List.mem_of_getElem? hk
  · intro hk
    obtain ⟨i, hi⟩ := List.mem_iff_getElem?.mp hk
    obtain ⟨hlt, -⟩ := List.getElem?_eq_some_iff.mp hi
    have hlen : i < l.nodeIds.length := by simpa [Rank.ofLevel, nodeIds] using hlt
    exact ⟨_, i, List.getElem?_eq_getElem hlen, hi⟩

section

variable (hd : l.nodeIds.Nodup)
include hd

theorem Ranked.exists_le (hk : l.Ranked b k) (hjk : j ≤ k) : ∃ a, l.Ranked a j := by
  induction hjk using Nat.decreasingInduction with
  | self => exact ⟨b, hk⟩
  | of_succ j _ ih =>
    obtain ⟨a, ha⟩ := ih
    obtain ⟨c, -, hc⟩ := ha.exists_below hd
    exact ⟨c, hc⟩

theorem exists_top (hne : l.nodes ≠ []) :
    ∃ m < l.nodes.length, ∀ k, (∃ id, l.Ranked id k) ↔ k ≤ m := by
  have hlen : (Rank.ofLevel l).length = l.nodes.length := by simp [Rank.ofLevel]
  have hranks : (Rank.ofLevel l).toFinset.Nonempty := by
    rw [List.toFinset_nonempty_iff, ← List.length_pos_iff, hlen, List.length_pos_iff]
    exact hne
  obtain ⟨m, hm, hmax⟩ := (Rank.ofLevel l).toFinset.exists_max_image id hranks
  rw [List.mem_toFinset] at hm
  have hused : ∀ k, (∃ id, l.Ranked id k) ↔ k ≤ m := by
    intro k
    constructor
    · intro hk
      exact hmax k (List.mem_toFinset.mpr (exists_ranked_iff.mp hk))
    · intro hk
      obtain ⟨b, hb⟩ := exists_ranked_iff.mpr hm
      exact hb.exists_le hd hk
  refine ⟨m, ?_, hused⟩
  have hsub : List.range (m + 1) ⊆ Rank.ofLevel l := fun k hk =>
    exists_ranked_iff.mp ((hused k).mpr (Nat.le_of_lt_succ (List.mem_range.mp hk)))
  have hle := (List.nodup_range.subperm hsub).length_le
  rw [List.length_range, hlen] at hle
  exact hle

/-- A node with predecessors has rank 0 only by a cut at a node that is behind no ranked one, and
so behind no entry of the level. -/
theorem not_reachable_of_ranked_zero (hb : l.Ranked b 0) (hab : l.Arc a b)
    (he : ∀ a, ¬ l.Arc a e) : ¬ ReflTransGen l.Arc e b := by
  intro hpath
  obtain ⟨x, hex, hxb⟩ : ∃ x, ReflTransGen l.Arc e x ∧ l.Arc x b := by
    rcases ReflTransGen.cases_tail hpath with rfl | hlast
    · exact absurd hab (he a)
    · exact hlast
  obtain ⟨n, honepast, hcounts⟩ := hb.onePast hd
  have hnone : ∀ a, l.Arc a b → l.Unranked n a := fun a hab => by
    by_contra hranked
    obtain ⟨j, hj⟩ := exists_ranked hab.source
    exact absurd (honepast.above a j hab hranked hj) (Nat.not_lt_zero j)
  rcases hcounts with hall | hcut
  · exact hall a hab (hnone a hab)
  · rcases hcut.cases with ⟨c, hcb, hranked⟩ | hback
    · exact hranked (hnone c hcb)
    · have hun : l.Unranked n e := by
        have hx := hnone x hxb
        clear hxb
        induction hex with
        | refl => exact hx
        | tail _ hyz ih => exact ih (hback _ _ hyz hx)
      obtain ⟨c, hc, -⟩ := hun.exists_arc hcut.cuts
      exact he c hc

/-- As many rounds as there are nodes rank every node, since every round ranks one, so no place of a
node stands in for its rank. No rank below another is left out, and a node with predecessors ranks 0
only if it is behind no entry of the level. -/
theorem ranks_gap_free :
    (Rank.after l l.nodes.length).complete ∧
    (∀ i < l.nodes.length, ∃ k, (Rank.after l l.nodes.length).rank? i = some k ∧
      (Rank.ofLevel l)[i]? = some k) ∧
    (∀ n, (Rank.after l n).complete ∨
      (Rank.after l (n + 1)).unranked.length < (Rank.after l n).unranked.length) ∧
    (∀ b k, l.Ranked b (k + 1) → ∃ a, l.Arc a b ∧ l.Ranked a k) ∧
    (l.nodes ≠ [] → ∃ m < l.nodes.length, ∀ k, (∃ id, l.Ranked id k) ↔ k ≤ m) ∧
    ∀ a b, l.Arc a b → l.Ranked b 0 →
      ∀ e, (∀ a, ¬ l.Arc a e) → ¬ ReflTransGen l.Arc e b := by
  refine ⟨(Rank.final_spec l).1, fun i hi => ?_, Rank.after_progress l, fun b k hb => ?_,
    exists_top hd, fun a b hab hb e he => ?_⟩
  · have hlen : i < (Rank.ofLevel l).length := by simpa [Rank.ofLevel] using hi
    have hk := List.getElem?_eq_getElem hlen
    exact ⟨_, (Rank.ofLevel_getElem? l i).symm.trans hk, hk⟩
  · exact hb.exists_below hd
  · exact not_reachable_of_ranked_zero hd hb hab he

end

/-- A loop that nothing leads into, a node behind it that is listed first, and an entry that leads
elsewhere. -/
def island : Level where
  nodes := [{ id := "behind", kind := .decision }, { id := "back", kind := .decision },
    { id := "forth", kind := .decision }, { id := "entry", kind := .decision },
    { id := "end", kind := .decision }]
  edges := [{ id := "1", source := "forth", target := "back" },
    { id := "2", source := "back", target := "forth" },
    { id := "3", source := "back", target := "behind" },
    { id := "4", source := "behind", target := "behind" },
    { id := "5", source := "entry", target := "end" }]

theorem ranks_gap_free_island : island.nodeIds.Nodup ∧ Rank.ofLevel island = [0, 0, 1, 0, 1] ∧
    (Rank.after island 5).complete ∧ (∃ m < 5, ∀ k, (∃ id, island.Ranked id k) ↔ k ≤ m) ∧
    (∃ a, island.Arc a "forth" ∧ island.Ranked a 0) ∧
    island.Arc "back" "behind" ∧ ¬ ReflTransGen island.Arc "entry" "behind" := by
  have hd : island.nodeIds.Nodup := by decide
  have hranks : Rank.ofLevel island = [0, 0, 1, 0, 1] := by decide +kernel
  have hforth : island.Ranked "forth" 1 := ⟨2, rfl, by rw [hranks]; rfl⟩
  have hbehind : island.Ranked "behind" 0 := ⟨0, rfl, by rw [hranks]; rfl⟩
  have hentry : ∀ a, ¬ island.Arc a "entry" := by
    have hne : ∀ a b, island.Arc a b → b ≠ "entry" := forall_arc.mpr (by decide)
    exact fun a hab => hne a _ hab rfl
  have harc : island.Arc "back" "behind" := by decide
  obtain ⟨hcomplete, -, -, hbelow, htop, hreach⟩ := ranks_gap_free hd
  exact ⟨hd, hranks, hcomplete, htop (by decide), hbelow _ _ hforth, harc,
    hreach "back" "behind" harc hbehind "entry" hentry⟩

end Level

end Workflow

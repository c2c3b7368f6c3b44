import Workflow.Proofs.Layout.Rounds

/-!
# Ranks as lengths of chains

Without cycles the rank of a node is the length of the longest chain of connections that ends at it:
a chain goes up by a rank at every connection, and from a node of rank `k` predecessors of the ranks
below lead back to an entry of the level. No round cuts, since every sweep ranks a node.
-/

namespace Workflow

variable {l : Level} {a b id : String} {preds : Array (List Nat)} {j k n : Nat}

namespace Level

-- ---------------------------------------------------------------------------
-- Chains
-- ---------------------------------------------------------------------------

/-- A chain of `k` connections, from any node of the level to the node `id`. -/
inductive ChainTo (l : Level) : Nat → String → Prop
  | start {id : String} (h : id ∈ l.nodeIds) : ChainTo l 0 id
  | step {k : Nat} {a b : String} (h : ChainTo l k a) (hab : l.Arc a b) : ChainTo l (k + 1) b

/-- The most connections of a chain that ends at a node. -/
def Longest (l : Level) (id : String) (k : Nat) : Prop :=
  l.ChainTo k id ∧ ∀ n, l.ChainTo n id → n ≤ k

section

variable (hd : l.nodeIds.Nodup)
include hd

theorem ChainTo.le_rank_of_not_behindCycle (h : l.ChainTo n b) (hnot : ¬ l.BehindCycle b)
    (hk : l.Ranked b k) : n ≤ k := by
  induction h generalizing k with
  | start => exact Nat.zero_le k
  | step _ hab ih =>
    have hnot' := fun hbehind => hnot (BehindCycle.arc hbehind hab)
    obtain ⟨j, hj⟩ := exists_ranked hab.source
    have hle := ih hnot' hj
    have hlt := hab.rank_lt_of_not_behindCycle hd hnot' hj hk
    omega

/-- On any level a rank is the length of some chain. -/
theorem Ranked.exists_chain (hk : l.Ranked b k) : l.ChainTo k b := by
  induction k generalizing b with
  | zero => exact .start hk.mem
  | succ k ih =>
    obtain ⟨a, hab, ha⟩ := hk.exists_below hd
    exact .step (ih ha) hab

theorem Ranked.longest (hacyclic : l.Acyclic) (hk : l.Ranked id k) : l.Longest id k :=
  ⟨hk.exists_chain hd, fun _ h => h.le_rank_of_not_behindCycle hd (hacyclic.not_behindCycle id) hk⟩

end

theorem Longest.eq_zero (h : l.Longest id k) (hnone : ∀ a, ¬ l.Arc a id) : k = 0 := by
  obtain ⟨hchain, -⟩ := h
  cases hchain with
  | start => rfl
  | step _ hab => exact absurd hab (hnone _)

theorem Longest.lt (hab : l.Arc a b) (ha : l.Longest a j) (hb : l.Longest b k) : j < k :=
  hb.2 _ (ha.1.step hab)

/-- On a level without cycles, in whatever order its nodes and edges are listed, every node ranks
by the longest chain that ends at it. So nodes without predecessors rank 0, connections go up in
rank, and no round of the ranking cuts: each is a sweep. -/
theorem ranks_longest (hd : l.nodeIds.Nodup) (h : l.Acyclic) :
    (∀ (i : Nat) id, l.nodeIds[i]? = some id →
      ∃ k, (Rank.ofLevel l)[i]? = some k ∧ l.Longest id k) ∧
    (∀ id ∈ l.nodeIds, (∀ a, ¬ l.Arc a id) → l.Ranked id 0) ∧
    (∀ a b j k, l.Arc a b → l.Ranked a j → l.Ranked b k → j < k) ∧
    ∀ n, ¬ Rank.Cuts l n ∧ ((Rank.after l n).complete ∨
      Rank.after l (n + 1) = (Rank.after l n).sweep (Rank.predsOf l)) := by
  refine ⟨fun i id hi => ?_, fun id hid hnone => ?_, fun a b j k hab hj hk => ?_, fun n => ?_⟩
  · obtain ⟨hlt, -⟩ := List.getElem?_eq_some_iff.mp hi
    have hlen : i < (Rank.ofLevel l).length := by simpa [Rank.ofLevel, nodeIds] using hlt
    have hk := List.getElem?_eq_getElem hlen
    exact ⟨_, hk, Ranked.longest hd h ⟨i, hi, hk⟩⟩
  · obtain ⟨k, hk⟩ := exists_ranked hid
    obtain rfl := (hk.longest hd h).eq_zero hnone
    exact hk
  · exact (hj.longest hd h).lt hab (hk.longest hd h)
  · have hnot := Rank.not_cuts h n
    exact ⟨hnot, Rank.after_succ_of_not_cuts hnot⟩

/-- The entry is listed last, `end` has a shortcut from it, and one edge is doubled and one leads
back to where it starts. -/
def tangle : Level where
  nodes := [{ id := "end", kind := .decision }, { id := "right", kind := .decision },
    { id := "left", kind := .decision }, { id := "entry", kind := .decision }]
  edges := [{ id := "1", source := "entry", target := "end" },
    { id := "2", source := "right", target := "end" },
    { id := "3", source := "left", target := "right" },
    { id := "4", source := "left", target := "right" },
    { id := "5", source := "entry", target := "left" },
    { id := "6", source := "left", target := "left" }]

theorem ranks_longest_tangle : tangle.nodeIds.Nodup ∧ tangle.Acyclic ∧
    Rank.ofLevel tangle = [3, 2, 1, 0] ∧ tangle.Longest "end" 3 ∧ ∀ n, ¬ Rank.Cuts tangle n := by
  have hd : tangle.nodeIds.Nodup := by decide
  have hacyclic : tangle.Acyclic :=
    acyclic_of_lt (["entry", "left", "right", "end"].idxOf ·) (by decide)
  have hranks : Rank.ofLevel tangle = [3, 2, 1, 0] := by decide +kernel
  obtain ⟨hlongest, -, -, hcuts⟩ := ranks_longest hd hacyclic
  obtain ⟨k, hk, hend⟩ := hlongest 0 "end" rfl
  rw [hranks] at hk
  cases hk
  exact ⟨hd, hacyclic, hranks, hend, fun n => (hcuts n).1⟩

end Level

end Workflow

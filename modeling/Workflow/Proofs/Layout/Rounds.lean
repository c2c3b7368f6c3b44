import Workflow.Proofs.Layout.Ranks

/-!
# Ranks round by round

A node is ranked by a sweep, once all its predecessors have a rank, or by a cut, which counts only
the predecessors that have a rank by then (`ranked_cases`). A round cuts only when every unranked
node has an unranked predecessor, so the nodes that a cut reaches are on a cycle or behind one. That
is all that cycles do: a connection goes up in rank unless it starts on a cycle or behind one. On a
level without cycles no round cuts, and the ranks do not depend on the order of the nodes either.
-/

namespace Workflow

variable {l m : Level} {a b id : String} {preds : Array (List Nat)} {r s t : Rank.Ranks}
variable {i j k n p : Nat}

namespace Rank

namespace Ranks

-- ---------------------------------------------------------------------------
-- What a round adds
-- ---------------------------------------------------------------------------

/-- The ranks that `s` has and `r` has not are the ones that the predecessors ask for, and those
all have theirs. -/
def Fresh (preds : Array (List Nat)) (r s : Ranks) : Prop :=
  ∀ i k, r.rank? i = none → s.rank? i = some k → Ready preds s i ∧ k = nextOf preds s i

theorem Fresh.refl (preds : Array (List Nat)) (r : Ranks) : Fresh preds r r := by
  intro i k hi hk
  rw [hi] at hk
  cases hk

theorem Fresh.trans (h : Fresh preds r s) (hst : Extends s t) (h' : Fresh preds s t) :
    Fresh preds r t := by
  intro i k hi hk
  cases hs : s.rank? i with
  | none => exact h' i k hs hk
  | some j =>
    obtain ⟨hready, hj⟩ := h i j hi hs
    cases (hst.kept i j hs).symm.trans hk
    exact ⟨hst.ready hready, hj.trans (hst.next_eq hready).symm⟩

theorem settle_fresh (hj : j < r.size) : Fresh preds r (r.settle preds j) := by
  by_cases hset : r.rank? j = none ∧ Ready preds r j
  · have hextends := settle_extends preds hj
    intro i k hi hk
    have hij : j = i := by
      by_contra hne
      rw [settle_eq_set hset.1 hset.2, rank?_setIfInBounds hj, if_neg hne, hi] at hk
      cases hk
    subst hij
    refine ⟨hextends.ready hset.2, ?_⟩
    rw [nextOf, hextends.next_eq hset.2]
    rw [settle_eq_set hset.1 hset.2, rank?_setIfInBounds hj, if_pos rfl] at hk
    exact (Option.some.inj hk).symm
  · rw [settle_eq_self hset]
    exact .refl preds r

theorem sweep_fresh (preds : Array (List Nat)) (r : Ranks) : Fresh preds r (r.sweep preds) := by
  refine (List.foldlRecOn (motive := fun s => Extends r s ∧ Fresh preds r s)
    (List.range r.size) _ ⟨.refl r, .refl preds r⟩ fun s ⟨hextends, hs⟩ i hi => ?_).2
  have hlt : i < s.size := hextends.size ▸ List.mem_range.mp hi
  have hsettle := settle_extends preds hlt
  exact ⟨hextends.trans hsettle, hs.trans hsettle (settle_fresh hlt)⟩

/-- A cut is made at a node with a ranked predecessor if an unranked node has one. -/
theorem cutNode?_cases (h : r.cutNode? preds = some i) :
    (∃ p ∈ preds.getD i [], (r.rank? p).isSome) ∨
      ∀ j ∈ r.unranked, ∀ p ∈ preds.getD j [], r.rank? p = none := by
  unfold cutNode? at h
  simp only at h
  split at h
  · rename_i hfind
    cases h
    exact .inl (by simpa using List.find?_some hfind)
  · rename_i hfind
    exact .inr fun j hj => by simpa using List.find?_eq_none.mp hfind j hj

theorem cut_new (hi : r.rank? i = none) (hk : (r.cut preds).rank? i = some k) :
    r.cutNode? preds = some i ∧ k = nextOf preds r i := by
  unfold cut at hk
  split at hk
  · rename_i j hj
    obtain ⟨hlt, -⟩ := mem_unranked.mp (cutNode?_mem hj)
    rw [rank?_setIfInBounds hlt] at hk
    split at hk
    · rename_i hij
      cases hk
      exact ⟨hij ▸ hj, hij ▸ rfl⟩
    · rw [hi] at hk
      cases hk
  · rw [hi] at hk
    cases hk

/-- A node that a round ranks has the rank that its predecessors ask for, all of them or, if the
round is a cut, those that have a rank. -/
theorem round_new (hi : r.rank? i = none) (hk : (r.round preds).rank? i = some k) :
    Ready preds (r.round preds) i ∧ k = nextOf preds (r.round preds) i ∨
      r.sweep preds = r ∧ r.cutNode? preds = some i ∧ k = nextOf preds r i := by
  rcases round_cases preds r with ⟨-, hround⟩ | ⟨hsame, hround⟩ <;> rw [hround] at hk ⊢
  · exact .inl (sweep_fresh preds r i k hi hk)
  · exact .inr ⟨hsame, cut_new hi hk⟩

end Ranks

-- ---------------------------------------------------------------------------
-- Round by round
-- ---------------------------------------------------------------------------

/-- The ranks of a level after `n` rounds; `final` is after as many as there are nodes. -/
def after (l : Level) (n : Nat) : Ranks :=
  .rounds (predsOf l) n (Array.replicate l.nodes.length none)

theorem Ranks.rounds_succ (r : Ranks) (n : Nat) : r.rounds preds (n + 1) =
    if (r.rounds preds n).complete then r.rounds preds n else (r.rounds preds n).round preds := by
  induction n generalizing r with
  | zero => rfl
  | succ n ih =>
    by_cases hc : r.complete
    · simp [rounds, hc]
    · have hround : ∀ m, r.rounds preds (m + 1) = (r.round preds).rounds preds m := by
        simp [rounds, hc]
      rw [hround, hround, ih]

theorem after_succ (l : Level) (n : Nat) : after l (n + 1) =
    if (after l n).complete then after l n else (after l n).round (predsOf l) :=
  Ranks.rounds_succ _ n

theorem after_size (l : Level) (n : Nat) : (after l n).size = l.nodes.length := by
  induction n with
  | zero => simp [after, Ranks.rounds]
  | succ n ih =>
    rw [after_succ]
    split
    · exact ih
    · rename_i hc
      exact (Ranks.round_progress _ hc).1.size.trans ih

/-- The round after the first `n` cuts a cycle: a node has no rank, and a sweep ranks none. -/
def Cuts (l : Level) (n : Nat) : Prop :=
  ¬ (after l n).complete ∧ (after l n).sweep (predsOf l) = after l n

theorem after_succ_of_not_cuts (h : ¬ Cuts l n) :
    (after l n).complete ∨ after l (n + 1) = (after l n).sweep (predsOf l) := by
  by_cases hc : (after l n).complete
  · exact .inl hc
  · have hne : (after l n).sweep (predsOf l) ≠ after l n := fun hsame => h ⟨hc, hsame⟩
    refine .inr ?_
    rw [after_succ, if_neg hc]
    rcases Ranks.round_cases (predsOf l) (after l n) with ⟨-, hround⟩ | ⟨hsame, -⟩
    · exact hround
    · exact absurd hsame hne

theorem after_zero (l : Level) (i : Nat) : (after l 0).rank? i = none := by
  simp only [after, Ranks.rounds, Ranks.rank?, Array.getElem?_replicate]
  split <;> rfl

theorem after_step (l : Level) (n : Nat) : Ranks.Extends (after l n) (after l (n + 1)) := by
  rw [after_succ]
  split
  · exact .refl _
  · rename_i hc
    exact (Ranks.round_progress _ hc).1

theorem after_extends (l : Level) (h : n ≤ k) : Ranks.Extends (after l n) (after l k) := by
  induction h with
  | refl => exact .refl _
  | step _ ih => exact ih.trans (after_step l _)

theorem after_progress (l : Level) (n : Nat) : (after l n).complete ∨
    (after l (n + 1)).unranked.length < (after l n).unranked.length := by
  by_cases hc : (after l n).complete
  · exact .inl hc
  · rw [after_succ, if_neg hc]
    exact .inr (Ranks.round_progress _ hc).2

/-- The round after the first `n` cuts a cycle at a node. -/
structure CutAt (l : Level) (n i : Nat) : Prop where
  cuts : Cuts l n
  node : (after l n).cutNode? (predsOf l) = some i

/-- The rank of a node is one past those of all its predecessors, or a round before has cut at the
node and its rank is one past those of the predecessors that had one. -/
theorem ranked_cases (h : (after l n).rank? i = some k) :
    Ranks.Ready (predsOf l) (after l n) i ∧ k = Ranks.nextOf (predsOf l) (after l n) i ∨
      ∃ m < n, CutAt l m i ∧ k = Ranks.nextOf (predsOf l) (after l m) i := by
  induction n with
  | zero =>
    rw [after_zero] at h
    cases h
  | succ n ih =>
    have hstep := after_step l n
    cases hi : (after l n).rank? i with
    | some j =>
      cases (hstep.kept i j hi).symm.trans h
      rcases ih hi with ⟨hready, hk⟩ | ⟨m, hm, hcut⟩
      · exact .inl ⟨hstep.ready hready, hk.trans (hstep.next_eq hready).symm⟩
      · exact .inr ⟨m, by omega, hcut⟩
    | none =>
      by_cases hc : (after l n).complete
      · rw [after_succ, if_pos hc, hi] at h
        cases h
      · rw [after_succ, if_neg hc] at h ⊢
        rcases Ranks.round_new hi h with hready | ⟨hsame, hcut, hk⟩
        · exact .inl hready
        · exact .inr ⟨n, by omega, ⟨⟨hc, hsame⟩, hcut⟩, hk⟩

/-- When a round cuts, every node whose predecessors all have a rank has one too. -/
theorem Cuts.isSome (h : Cuts l n) (hi : i < l.nodes.length)
    (hready : Ranks.Ready (predsOf l) (after l n) i) : ((after l n).rank? i).isSome := by
  have hnew := Ranks.sweep_isSome (by rwa [after_size]) hready
  rwa [h.2] at hnew

end Rank

namespace Level

-- ---------------------------------------------------------------------------
-- Cuts, by ids
-- ---------------------------------------------------------------------------

/-- The node has no rank after `n` rounds. -/
def Unranked (l : Level) (n : Nat) (id : String) : Prop :=
  ∃ i, Rank.lastIndex id l.nodeIds = some i ∧ (Rank.after l n).rank? i = none

/-- The round after the first `n` cuts at the node. -/
def CutAt (l : Level) (n : Nat) (id : String) : Prop :=
  ∃ i, Rank.lastIndex id l.nodeIds = some i ∧ Rank.CutAt l n i

theorem CutAt.cuts (h : l.CutAt n id) : Rank.Cuts l n := by
  obtain ⟨i, -, hcut⟩ := h
  exact hcut.cuts

theorem mem_preds (hi : Rank.lastIndex b l.nodeIds = some i) :
    p ∈ (Rank.predsOf l).getD i [] ↔ ∃ a, l.Arc a b ∧ Rank.lastIndex a l.nodeIds = some p := by
  rw [Rank.mem_predsOf]
  constructor
  · rintro ⟨a, b', hab, ha, hb'⟩
    have hbb : b' = b := Option.some.inj
      ((Rank.lastIndex_getElem? hb').symm.trans (Rank.lastIndex_getElem? hi))
    exact ⟨a, hbb ▸ hab, ha⟩
  · rintro ⟨a, hab, ha⟩
    exact ⟨a, b, hab, ha, hi⟩

theorem Arc.index (hab : l.Arc a b) : ∃ p, Rank.lastIndex a l.nodeIds = some p :=
  Option.isSome_iff_exists.mp (Rank.lastIndex_isSome.mpr hab.source)

theorem not_unranked (ha : Rank.lastIndex a l.nodeIds = some p) :
    ¬ l.Unranked n a ↔ ∃ j, (Rank.after l n).rank? p = some j := by
  rw [← Option.ne_none_iff_exists']
  constructor
  · exact fun h hnone => h ⟨p, ha, hnone⟩
  · rintro h ⟨q, hq, hnone⟩
    cases ha.symm.trans hq
    exact h hnone

/-- When a round cuts, an unranked node has an unranked predecessor, which has one in turn. -/
theorem Unranked.exists_arc (hb : l.Unranked n b) (h : Rank.Cuts l n) :
    ∃ a, l.Arc a b ∧ l.Unranked n a := by
  obtain ⟨i, hi, hnone⟩ := hb
  by_contra hall
  have hready : Rank.Ranks.Ready (Rank.predsOf l) (Rank.after l n) i := fun p hp => by
    obtain ⟨a, hab, ha⟩ := (mem_preds hi).mp hp
    have hranked : ¬ l.Unranked n a := fun hun => hall ⟨a, hab, hun⟩
    exact Option.isSome_iff_exists.mpr ((not_unranked ha).mp hranked)
  have hsome := h.isSome (lt_of_lastIndex hi) hready
  rw [hnone] at hsome
  cases hsome

theorem Unranked.behindCycle (hb : l.Unranked n b) (h : Rank.Cuts l n) : l.BehindCycle b := by
  by_contra hnot
  induction b using (wellFounded_arc l).induction with
  | h b ih =>
    obtain ⟨a, hab, ha⟩ := hb.exists_arc h
    exact ih a ⟨hab, hnot⟩ ha fun hbehind => hnot (hbehind.arc hab)

theorem exists_unranked (h : Rank.Cuts l n) : ∃ id, l.Unranked n id := by
  obtain ⟨i, hi⟩ := List.exists_mem_of_ne_nil _ (mt Rank.Ranks.complete_iff.mpr h.1)
  obtain ⟨hlt, hnone⟩ := Rank.Ranks.mem_unranked.mp hi
  by_contra hall
  -- A place that no id leads to has no predecessors, so a sweep would rank it.
  have hready : Rank.Ranks.Ready (Rank.predsOf l) (Rank.after l n) i := fun p hp => by
    obtain ⟨-, b, -, -, hb⟩ := Rank.mem_predsOf.mp hp
    exact absurd ⟨b, i, hb, hnone⟩ hall
  have hsome := h.isSome (by rwa [Rank.after_size] at hlt) hready
  rw [hnone] at hsome
  cases hsome

/-- A cut is made behind a ranked node, or where no unranked node is behind a ranked one. -/
theorem CutAt.cases (h : l.CutAt n b) : (∃ a, l.Arc a b ∧ ¬ l.Unranked n a) ∨
    ∀ x y, l.Arc x y → l.Unranked n y → l.Unranked n x := by
  obtain ⟨i, hi, hcut⟩ := h
  rcases Rank.Ranks.cutNode?_cases hcut.node with ⟨p, hp, hsome⟩ | hnone
  · obtain ⟨a, hab, ha⟩ := (mem_preds hi).mp hp
    exact .inl ⟨a, hab, (not_unranked ha).mpr (Option.isSome_iff_exists.mp hsome)⟩
  · refine .inr fun x y hxy ⟨j, hj, hun⟩ => ?_
    obtain ⟨p, hp⟩ := hxy.index
    have hmem : j ∈ (Rank.after l n).unranked :=
      Rank.Ranks.mem_unranked.mpr ⟨by rw [Rank.after_size]; exact lt_of_lastIndex hj, hun⟩
    exact ⟨p, hp, hnone j hmem p ((mem_preds hj).mpr ⟨x, hxy, hp⟩)⟩

/-- `k` is one past the highest rank of those predecessors of a node that count, and 0 if none
does. -/
structure OnePast (l : Level) (counts : String → Prop) (b : String) (k : Nat) : Prop where
  above : ∀ a j, l.Arc a b → counts a → l.Ranked a j → j < k
  tight : ∀ j, k = j + 1 → ∃ a, l.Arc a b ∧ l.Ranked a j

section

variable (hd : l.nodeIds.Nodup)
include hd

theorem Ranked.unique (hj : l.Ranked id j) (hk : l.Ranked id k) : j = k := by
  obtain ⟨p, hp, hj⟩ := (ranked_iff hd).mp hj
  obtain ⟨q, hq, hk⟩ := (ranked_iff hd).mp hk
  cases hp.symm.trans hq
  exact Option.some.inj (hj.symm.trans hk)

theorem ranked_of_after (hn : n ≤ l.nodes.length) (ha : Rank.lastIndex a l.nodeIds = some p)
    (hj : (Rank.after l n).rank? p = some j) : l.Ranked a j :=
  (ranked_iff hd).mpr ⟨p, ha, (Rank.after_extends l hn).kept p j hj⟩

theorem onePast_next (hn : n ≤ l.nodes.length) (hi : Rank.lastIndex b l.nodeIds = some i) :
    l.OnePast (¬ l.Unranked n ·) b (Rank.Ranks.nextOf (Rank.predsOf l) (Rank.after l n) i) where
  above := by
    intro a j hab hranked hj
    obtain ⟨p, ha⟩ := hab.index
    obtain ⟨j', hj'⟩ := (not_unranked ha).mp hranked
    rw [hj.unique hd (ranked_of_after hd hn ha hj')]
    exact Rank.Ranks.lt_next ((mem_preds hi).mpr ⟨a, hab, ha⟩) hj'
  tight := by
    intro j hk
    obtain ⟨p, hp, hj⟩ := Rank.Ranks.exists_of_next_succ hk
    obtain ⟨a, hab, ha⟩ := (mem_preds hi).mp hp
    exact ⟨a, hab, ranked_of_after hd hn ha hj⟩

/-- Every node ranks one past those predecessors that have a rank when it is ranked: all of them,
unless a round cuts at the node. -/
theorem Ranked.onePast (hb : l.Ranked b k) : ∃ n, l.OnePast (¬ l.Unranked n ·) b k ∧
    ((∀ a, l.Arc a b → ¬ l.Unranked n a) ∨ l.CutAt n b) := by
  obtain ⟨i, hi, hk⟩ := (ranked_iff hd).mp hb
  rcases Rank.ranked_cases hk with ⟨hready, rfl⟩ | ⟨n, hn, hcut, rfl⟩
  · refine ⟨l.nodes.length, onePast_next hd le_rfl hi, .inl fun a hab => ?_⟩
    obtain ⟨p, ha⟩ := hab.index
    have hsome := hready p ((mem_preds hi).mpr ⟨a, hab, ha⟩)
    exact (not_unranked ha).mpr (Option.isSome_iff_exists.mp hsome)
  · exact ⟨n, onePast_next hd hn.le hi, .inr ⟨i, hi, hcut⟩⟩

theorem Ranked.exists_below (hb : l.Ranked b (k + 1)) : ∃ a, l.Arc a b ∧ l.Ranked a k := by
  obtain ⟨n, honepast, -⟩ := hb.onePast hd
  exact honepast.tight k rfl

/-- A connection that does not go up leads to a node where a round cut, and comes from one that had
no rank yet. -/
theorem Arc.cut_of_le (hab : l.Arc a b) (ha : l.Ranked a j) (hb : l.Ranked b k) (hle : k ≤ j) :
    ∃ n, l.CutAt n b ∧ l.Unranked n a := by
  obtain ⟨n, honepast, hcounts⟩ := hb.onePast hd
  have hun : l.Unranked n a := by
    by_contra hranked
    have hlt := honepast.above a j hab hranked ha
    omega
  rcases hcounts with hall | hcut
  · exact absurd hun (hall a hab)
  · exact ⟨n, hcut, hun⟩

theorem Arc.rank_lt_of_not_behindCycle (hab : l.Arc a b) (hnot : ¬ l.BehindCycle a)
    (ha : l.Ranked a j) (hb : l.Ranked b k) : j < k := by
  by_contra hle
  obtain ⟨n, hcut, hun⟩ := hab.cut_of_le hd ha hb (Nat.le_of_not_lt hle)
  exact hnot (hun.behindCycle hcut.cuts)

end

-- ---------------------------------------------------------------------------
-- Without cycles
-- ---------------------------------------------------------------------------

theorem Arc.rank_lt (hd : l.nodeIds.Nodup) (hacyclic : l.Acyclic) (hab : l.Arc a b)
    (ha : l.Ranked a j) (hb : l.Ranked b k) : j < k :=
  hab.rank_lt_of_not_behindCycle hd (hacyclic.not_behindCycle a) ha hb

/-- Two levels with the same ids and the same connections, listed in any order. If there are cycles,
the ids are in the same order. -/
structure SameNet (l m : Level) : Prop where
  unique : l.nodeIds.Nodup
  ids : l.nodeIds.Perm m.nodeIds
  arcs : ∀ a b, l.Arc a b ↔ m.Arc a b
  order : l.nodeIds = m.nodeIds ∨ l.Acyclic

namespace SameNet

/-- Edges count by the nodes that they join, so edges of one level may be missing in the other if
they are repeated or join no two nodes. -/
theorem of_edges (unique : l.nodeIds.Nodup) (ids : l.nodeIds.Perm m.nodeIds)
    (hl : ∀ e ∈ l.edges, l.Arc e.source e.target → m.Arc e.source e.target)
    (hm : ∀ e ∈ m.edges, m.Arc e.source e.target → l.Arc e.source e.target)
    (order : l.nodeIds = m.nodeIds ∨ l.Acyclic) : l.SameNet m :=
  ⟨unique, ids, fun a b => ⟨forall_arc.mpr hl a b, forall_arc.mpr hm a b⟩, order⟩

variable (h : l.SameNet m)
include h

theorem acyclic_iff : l.Acyclic ↔ m.Acyclic := by
  have harcs : l.Arc = m.Arc := funext fun a => funext fun b => propext (h.arcs a b)
  rw [Acyclic, Acyclic, harcs]

theorem congr {l' m' : Level} (hl : l'.nodeIds = l.nodeIds) (hle : l'.edges = l.edges)
    (hm : m'.nodeIds = m.nodeIds) (hme : m'.edges = m.edges) : l'.SameNet m' := by
  have harc : ∀ {l l' : Level}, l'.nodeIds = l.nodeIds → l'.edges = l.edges → l'.Arc = l.Arc := by
    intro l l' hids hedges
    funext a b
    simp only [arc_iff, hids, hedges]
  obtain ⟨unique, ids, arcs, order⟩ := h
  rw [← harc hl hle, ← harc hm hme] at arcs
  rw [Acyclic, ← harc hl hle] at order
  rw [← hl] at unique ids order
  rw [← hm] at ids order
  exact ⟨unique, ids, arcs, order⟩

theorem symm : m.SameNet l where
  unique := h.ids.nodup_iff.mp h.unique
  ids := h.ids.symm
  arcs a b := (h.arcs a b).symm
  order := h.order.imp Eq.symm h.acyclic_iff.mp

theorem rank_le (hacyclic : l.Acyclic) (hj : l.Ranked b j) (hk : m.Ranked b k) : j ≤ k := by
  -- By induction along the connections: the rank of `b` in `l` is one past that of some `a`, which
  -- ranks no lower in `m`, and `b` is past `a` in `m` too.
  induction b using hacyclic.wellFounded.induction generalizing j k with
  | h b ih =>
    cases j with
    | zero => exact Nat.zero_le k
    | succ j =>
      obtain ⟨a, hab, ha⟩ := hj.exists_below h.unique
      have hab' : m.Arc a b := (h.arcs a b).mp hab
      obtain ⟨i, hi⟩ := exists_ranked hab'.source
      have hle : j ≤ i := ih a hab ha hi
      have hlt : i < k := hab'.rank_lt h.symm.unique (h.acyclic_iff.mp hacyclic) hi hk
      omega

/-- Nodes keep their ranks when their level is listed in another order. -/
theorem ranked_of (hj : l.Ranked id j) : m.Ranked id j := by
  rcases h.order with hids | hacyclic
  · rwa [Ranked, ← hids, ← Rank.ofLevel_congr hids h.arcs]
  · obtain ⟨k, hk⟩ := exists_ranked (h.ids.mem_iff.mp hj.mem)
    have hle : j ≤ k := h.rank_le hacyclic hj hk
    have hge : k ≤ j := h.symm.rank_le (h.acyclic_iff.mp hacyclic) hk hj
    rwa [Nat.le_antisymm hle hge]

end SameNet

end Level

theorem Rank.not_cuts (h : l.Acyclic) (n : Nat) : ¬ Cuts l n := fun hcut => by
  obtain ⟨id, hun⟩ := Level.exists_unranked hcut
  exact h.not_behindCycle id (hun.behindCycle hcut)

end Workflow

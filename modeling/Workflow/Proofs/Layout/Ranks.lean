import Mathlib.Order.WellFoundedSet
import Workflow.Layout.Rank

/-!
# Ranks of a level

A round keeps the ranks that are there and adds one while one is missing, so as many rounds as there
are nodes rank every node. Which ranks come out never depends on the order of the edges.
-/

namespace Workflow

open Relation (TransGen ReflTransGen)

variable {l m : Level} {a b id : String} {ids : List String}

-- ---------------------------------------------------------------------------
-- Connections
-- ---------------------------------------------------------------------------

namespace Level

/-- A connection between two different nodes of a level. -/
@[mk_iff]
structure Arc (l : Level) (a b : String) : Prop where
  ne : a ≠ b
  source : a ∈ l.nodeIds
  target : b ∈ l.nodeIds
  edge : ∃ e ∈ l.edges, e.source = a ∧ e.target = b

instance : Decidable (l.Arc a b) := decidable_of_iff _ (arc_iff l a b).symm

theorem forall_arc {P : String → String → Prop} : (∀ a b, l.Arc a b → P a b) ↔
    ∀ e ∈ l.edges, l.Arc e.source e.target → P e.source e.target := by
  refine ⟨fun h e _ => h e.source e.target, fun h a b hab => ?_⟩
  obtain ⟨e, he, rfl, rfl⟩ := hab.edge
  exact h e he hab

/-- No chain of connections leads back to its start. -/
def Acyclic (l : Level) : Prop := ∀ a, ¬ TransGen l.Arc a a

/-- A cycle leads to the node: the node is on a cycle, or it can be reached from one. -/
def BehindCycle (l : Level) (id : String) : Prop :=
  ∃ c, TransGen l.Arc c c ∧ ReflTransGen l.Arc c id

theorem BehindCycle.arc (h : l.BehindCycle a) (hab : l.Arc a b) : l.BehindCycle b := by
  obtain ⟨c, hcycle, hca⟩ := h
  exact ⟨c, hcycle, hca.tail hab⟩

theorem Acyclic.not_behindCycle (h : l.Acyclic) (id : String) : ¬ l.BehindCycle id :=
  fun ⟨c, hcycle, _⟩ => h c hcycle

/-- Where no cycle leads to, going back along connections comes to an end. -/
theorem wellFounded_arc (l : Level) : WellFounded fun a b => l.Arc a b ∧ ¬ l.BehindCycle b := by
  let chain a b := TransGen l.Arc a b ∧ ¬ l.BehindCycle b
  have : IsStrictOrder String chain :=
    { irrefl := fun a ⟨hcycle, hnot⟩ => hnot ⟨a, hcycle, .refl⟩
      trans := fun _ _ _ ⟨hab, _⟩ ⟨hbc, hnot⟩ => ⟨hab.trans hbc, hnot⟩ }
  have hfin : {a | a ∈ l.nodeIds}.Finite := l.nodeIds.finite_toSet
  have hwf : {a | a ∈ l.nodeIds}.WellFoundedOn chain := hfin.wellFoundedOn
  refine Subrelation.wf ?_ (Set.wellFoundedOn_iff.mp hwf)
  exact fun ⟨hab, hnot⟩ => ⟨⟨.single hab, hnot⟩, hab.source, hab.target⟩

theorem Acyclic.wellFounded (h : l.Acyclic) : WellFounded l.Arc :=
  Subrelation.wf (fun {_ b} hab => ⟨hab, h.not_behindCycle b⟩) l.wellFounded_arc

theorem acyclic_of_lt (number : String → Nat)
    (h : ∀ e ∈ l.edges, l.Arc e.source e.target → number e.source < number e.target) :
    l.Acyclic := by
  intro a ha
  have h : ∀ a b, l.Arc a b → number a < number b := forall_arc.mpr h
  have hlt : ∀ b, TransGen l.Arc a b → number a < number b := by
    intro b hab
    induction hab with
    | single hab => exact h _ _ hab
    | tail _ hbc ih => exact ih.trans (h _ _ hbc)
  exact (hlt a ha).false

end Level

namespace Rank

variable {preds preds' : Array (List Nat)} {r s : Ranks} {ps qs : List Nat} {i j k n p : Nat}

theorem lastIndex_getElem? (h : lastIndex id ids = some i) : ids[i]? = some id := by
  induction ids generalizing i with
  | nil => cases h
  | cons x xs ih =>
    unfold lastIndex at h
    split at h
    · cases h
      exact ih (by assumption)
    · split at h <;> cases h
      simpa

theorem lastIndex_isSome : (lastIndex id ids).isSome ↔ id ∈ ids := by
  induction ids with
  | nil => simp [lastIndex]
  | cons x xs ih =>
    rw [List.mem_cons, ← ih]
    cases h : lastIndex id xs with
    | some i => simp [lastIndex, h]
    | none => by_cases hx : x = id <;> simp [lastIndex, h, hx, eq_comm (a := id)]

theorem lastIndex_of_nodup (hd : ids.Nodup) : lastIndex id ids = some i ↔ ids[i]? = some id := by
  refine ⟨lastIndex_getElem?, fun h => ?_⟩
  obtain ⟨j, hj⟩ := Option.isSome_iff_exists.mp (lastIndex_isSome.mpr (List.mem_of_getElem? h))
  obtain ⟨hi, -⟩ := List.getElem?_eq_some_iff.mp h
  rw [hj, (List.getElem?_inj hi hd).mp (h.trans (lastIndex_getElem? hj).symm)]

/-- The predecessors of the nodes, by places. -/
def predsOf (l : Level) : Array (List Nat) :=
  ((List.range l.nodes.length).map (predecessors (arcs l.nodeIds l.edges))).toArray

theorem mem_arcs : (p, i) ∈ arcs l.nodeIds l.edges ↔ ∃ a b, l.Arc a b ∧
    lastIndex a l.nodeIds = some p ∧ lastIndex b l.nodeIds = some i := by
  simp only [arcs, List.mem_filterMap]
  constructor
  · rintro ⟨e, he, hpi⟩
    split at hpi
    · rename_i s t hs ht
      split at hpi
      · cases hpi
      · rename_i hne
        cases hpi
        refine ⟨_, _, ⟨?_, ?_, ?_, e, he, rfl, rfl⟩, hs, ht⟩
        · intro hst
          rw [hst, ht] at hs
          cases hs
          exact hne rfl
        · exact lastIndex_isSome.mp (by simp [hs])
        · exact lastIndex_isSome.mp (by simp [ht])
    · cases hpi
  · rintro ⟨a, b, ⟨hne, -, -, e, he, rfl, rfl⟩, hp, hi⟩
    refine ⟨e, he, ?_⟩
    have hpi : p ≠ i := by
      rintro rfl
      have hsame := (lastIndex_getElem? hp).symm.trans (lastIndex_getElem? hi)
      exact hne (Option.some.inj hsame)
    simp [hp, hi, hpi]

theorem mem_predsOf : p ∈ (predsOf l).getD i [] ↔ ∃ a b, l.Arc a b ∧
    lastIndex a l.nodeIds = some p ∧ lastIndex b l.nodeIds = some i := by
  rw [← mem_arcs]
  by_cases hi : i < l.nodes.length
  · simp [predsOf, predecessors, hi]
  · have hnone : (p, i) ∉ arcs l.nodeIds l.edges := by
      intro h
      obtain ⟨a, b, -, -, hb⟩ := mem_arcs.mp h
      obtain ⟨hlt, -⟩ := List.getElem?_eq_some_iff.mp (lastIndex_getElem? hb)
      exact hi (by simpa [Level.nodeIds] using hlt)
    simp [predsOf, hi, hnone]

namespace Ranks

-- ---------------------------------------------------------------------------
-- One past the highest
-- ---------------------------------------------------------------------------

theorem next_le : r.next ps ≤ n ↔ ∀ p ∈ ps, ∀ k, r.rank? p = some k → k < n := by
  have hfold : ∀ (ks : List Nat) m, ks.foldl (fun m k => max m (k + 1)) m ≤ n ↔
      m ≤ n ∧ ∀ k ∈ ks, k < n := by
    intro ks
    induction ks with
    | nil => simp
    | cons k ks ih =>
      intro m
      simp only [List.foldl_cons, ih, List.forall_mem_cons, max_le_iff, Nat.succ_le_iff, and_assoc]
  simp only [next, hfold, List.mem_filterMap]
  constructor
  · rintro ⟨-, h⟩ p hp k hk
    exact h k ⟨p, hp, hk⟩
  · rintro h
    exact ⟨Nat.zero_le n, fun k ⟨p, hp, hk⟩ => h p hp k hk⟩

theorem lt_next (hp : p ∈ ps) (hk : r.rank? p = some k) : k < r.next ps :=
  next_le.mp le_rfl p hp k hk

theorem exists_of_next_succ (h : r.next ps = k + 1) : ∃ p ∈ ps, r.rank? p = some k := by
  by_contra hnone
  have hle : r.next ps ≤ k := next_le.mpr fun p hp j hj => by
    have hlt := lt_next hp hj
    have hne : j ≠ k := fun hjk => hnone ⟨p, hp, hjk ▸ hj⟩
    omega
  omega

theorem next_congr (h : ∀ p, p ∈ ps ↔ p ∈ qs) : r.next ps = r.next qs :=
  eq_of_forall_ge_iff fun m => by simp only [next_le, h]

-- ---------------------------------------------------------------------------
-- Ranks that stay
-- ---------------------------------------------------------------------------

theorem lt_size (h : r.rank? i = some k) : i < r.size := by
  by_contra hi
  simp [rank?, hi] at h

theorem rank?_setIfInBounds (hi : i < r.size) :
    rank? (r.setIfInBounds i (some k)) j = if i = j then some k else r.rank? j := by
  unfold rank?
  rw [Array.getElem?_setIfInBounds]
  split <;> simp

/-- Ranks of the same nodes that keep every rank of `r`. -/
structure Extends (r s : Ranks) : Prop where
  size : s.size = r.size
  kept : ∀ i k, r.rank? i = some k → s.rank? i = some k

namespace Extends

theorem refl (r : Ranks) : Extends r r := ⟨rfl, fun _ _ h => h⟩

theorem trans {t : Ranks} (h : Extends r s) (h' : Extends s t) : Extends r t :=
  ⟨h'.size.trans h.size, fun i k hk => h'.kept i k (h.kept i k hk)⟩

theorem set (hi : i < r.size) (h : r.rank? i = none) : Extends r (r.setIfInBounds i (some k)) := by
  refine ⟨by simp, fun j m hj => ?_⟩
  rw [rank?_setIfInBounds hi, if_neg, hj]
  rintro rfl
  rw [h] at hj
  cases hj

theorem isSome (h : Extends r s) (hi : (r.rank? i).isSome) : (s.rank? i).isSome := by
  obtain ⟨k, hk⟩ := Option.isSome_iff_exists.mp hi
  rw [h.kept i k hk]
  rfl

theorem rank?_eq (h : Extends r s) (hi : (r.rank? i).isSome) : s.rank? i = r.rank? i := by
  obtain ⟨k, hk⟩ := Option.isSome_iff_exists.mp hi
  rw [h.kept i k hk, hk]

theorem next_eq (h : Extends r s) (hps : ∀ p ∈ ps, (r.rank? p).isSome) : s.next ps = r.next ps := by
  unfold next
  rw [List.filterMap_congr fun p hp => h.rank?_eq (hps p hp)]

theorem exists_new (h : Extends r s) (hne : s ≠ r) :
    ∃ i, r.rank? i = none ∧ (s.rank? i).isSome := by
  by_contra hnone
  refine hne (Array.ext h.size fun i hs hr => ?_)
  have hsame : s.rank? i = r.rank? i := by
    cases hi : r.rank? i with
    | some k => exact h.kept i k hi
    | none => simpa [hi] using fun hsome => hnone ⟨i, hi, hsome⟩
  simpa [rank?, hs, hr] using hsame

end Extends

/-- The predecessors of a node have a rank. -/
def Ready (preds : Array (List Nat)) (r : Ranks) (i : Nat) : Prop :=
  ∀ p ∈ preds.getD i [], (r.rank? p).isSome

theorem Extends.ready (h : Extends r s) (hi : Ready preds r i) : Ready preds s i :=
  fun p hp => h.isSome (hi p hp)

def nextOf (preds : Array (List Nat)) (r : Ranks) (i : Nat) : Nat := r.next (preds.getD i [])

theorem settle_eq_self (h : ¬ (r.rank? i = none ∧ Ready preds r i)) : r.settle preds i = r :=
  if_neg (by simpa [Ready] using h)

theorem settle_eq_set (h : r.rank? i = none) (hi : Ready preds r i) :
    r.settle preds i = r.setIfInBounds i (some (nextOf preds r i)) :=
  if_pos (by simpa [h, Ready] using hi)

theorem settle_extends (preds : Array (List Nat)) (hi : i < r.size) :
    Extends r (r.settle preds i) := by
  by_cases h : r.rank? i = none ∧ Ready preds r i
  · rw [settle_eq_set h.1 h.2]
    exact .set hi h.1
  · rw [settle_eq_self h]
    exact .refl r

theorem settle_isSome (hi : i < r.size) (hps : Ready preds r i) :
    ((r.settle preds i).rank? i).isSome := by
  by_cases h : r.rank? i = none
  · simp [settle_eq_set h hps, rank?_setIfInBounds hi]
  · rw [settle_eq_self fun h' => h h'.1]
    exact Option.isSome_iff_ne_none.mpr h

theorem foldl_extends (preds : Array (List Nat)) {is : List Nat} (his : ∀ i ∈ is, i < r.size) :
    Extends r (is.foldl (·.settle preds ·) r) :=
  List.foldlRecOn is _ (.refl r) fun _ h i hi => h.trans (settle_extends preds (h.size ▸ his i hi))

theorem sweep_extends (preds : Array (List Nat)) (r : Ranks) : Extends r (r.sweep preds) :=
  foldl_extends preds fun _ => List.mem_range.mp

/-- A sweep ranks every node whose predecessors all have a rank. -/
theorem sweep_isSome (hi : i < r.size) (hps : Ready preds r i) :
    ((r.sweep preds).rank? i).isSome := by
  obtain ⟨before, after, hrange⟩ := List.append_of_mem (List.mem_range.mpr hi)
  have hmem : ∀ j ∈ before ++ i :: after, j < r.size := fun j hj => List.mem_range.mp (hrange ▸ hj)
  rw [sweep, hrange, List.foldl_append, List.foldl_cons]
  have hbefore : Extends r (before.foldl (·.settle preds ·) r) :=
    foldl_extends preds fun j hj => hmem j (by simp [hj])
  have hsettle := settle_extends preds (hbefore.size ▸ hi)
  have hafter : Extends _ (after.foldl (·.settle preds ·) _) := foldl_extends preds fun j hj =>
    (hbefore.trans hsettle).size ▸ hmem j (by simp [hj])
  exact hafter.isSome (settle_isSome (hbefore.size ▸ hi) (hbefore.ready hps))

-- ---------------------------------------------------------------------------
-- As many rounds as there are nodes
-- ---------------------------------------------------------------------------

def unranked (r : Ranks) : List Nat := (List.range r.size).filter fun i => (r.rank? i).isNone

theorem mem_unranked : i ∈ r.unranked ↔ i < r.size ∧ r.rank? i = none := by simp [unranked]

theorem complete_iff : r.complete ↔ r.unranked = [] := by
  simp +contextual [complete, unranked, rank?, Array.all_eq_true, Option.isSome_iff_ne_none]

theorem Extends.length_unranked (h : Extends r s) (hi : r.rank? i = none)
    (hnew : (s.rank? i).isSome) : s.unranked.length < r.unranked.length := by
  obtain ⟨k, hk⟩ := Option.isSome_iff_exists.mp hnew
  have hmem : i ∈ r.unranked := mem_unranked.mpr ⟨h.size ▸ lt_size hk, hi⟩
  have hnot : i ∉ s.unranked := fun his => by simp [(mem_unranked.mp his).2] at hk
  have hsub : s.unranked.Sublist r.unranked := by
    unfold unranked
    rw [h.size]
    refine List.monotone_filter_right _ fun j hj => ?_
    by_contra hsome
    simp only [Option.isNone_iff_eq_none] at hj
    have hkept := h.isSome (Option.isSome_iff_ne_none.mpr (by simpa using hsome))
    simp [hj] at hkept
  exact hsub.length_le.lt_of_ne fun hlen => hnot (hsub.eq_of_length hlen ▸ hmem)

theorem cutNode?_mem (h : r.cutNode? preds = some i) : i ∈ r.unranked := by
  unfold cutNode? at h
  simp only at h
  split at h
  · cases h
    exact List.mem_of_find?_eq_some (by assumption)
  · exact List.mem_of_head? h

theorem cutNode?_isSome (preds : Array (List Nat)) (h : ¬ r.complete) :
    (r.cutNode? preds).isSome := by
  unfold cutNode?
  simp only
  split
  · rfl
  · exact List.isSome_head?.mpr (mt complete_iff.mpr h)

theorem round_cases (preds : Array (List Nat)) (r : Ranks) :
    r.sweep preds ≠ r ∧ r.round preds = r.sweep preds ∨
      r.sweep preds = r ∧ r.round preds = r.cut preds := by
  by_cases h : r.sweep preds = r <;> simp [round, h]

/-- A round ranks at least one node more while one has no rank. -/
theorem round_progress (preds : Array (List Nat)) (h : ¬ r.complete) :
    Extends r (r.round preds) ∧ (r.round preds).unranked.length < r.unranked.length := by
  rcases round_cases preds r with ⟨hne, hround⟩ | ⟨-, hround⟩ <;> rw [hround]
  · have hsweep := sweep_extends preds r
    obtain ⟨i, hi, hnew⟩ := hsweep.exists_new hne
    exact ⟨hsweep, hsweep.length_unranked hi hnew⟩
  · obtain ⟨i, hi⟩ := Option.isSome_iff_exists.mp (cutNode?_isSome preds h)
    obtain ⟨hlt, hnone⟩ := mem_unranked.mp (cutNode?_mem hi)
    have hcut : r.cut preds = r.setIfInBounds i (some (nextOf preds r i)) := by
      simp [cut, hi, nextOf]
    have hset : Extends r (r.cut preds) := hcut ▸ .set hlt hnone
    refine ⟨hset, hset.length_unranked hnone ?_⟩
    rw [hcut, rank?_setIfInBounds hlt]
    simp

theorem rounds_complete (preds : Array (List Nat)) (h : r.unranked.length ≤ n) :
    (r.rounds preds n).complete ∧ Extends r (r.rounds preds n) := by
  induction n generalizing r with
  | zero => exact ⟨complete_iff.mpr (List.length_eq_zero_iff.mp (Nat.le_zero.mp h)), .refl r⟩
  | succ n ih =>
    unfold rounds
    split
    · exact ⟨by assumption, .refl r⟩
    · rename_i hc
      obtain ⟨hextends, hlt⟩ := round_progress preds hc
      obtain ⟨hcomplete, hrest⟩ := ih (r := r.round preds) (by omega)
      exact ⟨hcomplete, hextends.trans hrest⟩

-- ---------------------------------------------------------------------------
-- The order of the edges
-- ---------------------------------------------------------------------------

section

variable (h : ∀ i p, p ∈ preds.getD i [] ↔ p ∈ preds'.getD i [])
include h

theorem settle_congr (r : Ranks) (i : Nat) : r.settle preds i = r.settle preds' i := by
  have hnext : nextOf preds r i = nextOf preds' r i := next_congr (h i)
  have hready : Ready preds r i ↔ Ready preds' r i := by simp only [Ready, h]
  by_cases hi : r.rank? i = none ∧ Ready preds r i
  · rw [settle_eq_set hi.1 hi.2, settle_eq_set hi.1 (hready.mp hi.2), hnext]
  · rw [settle_eq_self hi, settle_eq_self (by rwa [← hready])]

theorem cut_congr (r : Ranks) : r.cut preds = r.cut preds' := by
  have hany : ∀ i, (preds.getD i []).any (fun p => (r.rank? p).isSome) =
      (preds'.getD i []).any fun p => (r.rank? p).isSome := fun i => by
    rw [Bool.eq_iff_iff, List.any_eq_true, List.any_eq_true]
    simp only [h]
  have hcut : r.cutNode? preds = r.cutNode? preds' := by simp only [cutNode?, hany]
  unfold cut
  rw [hcut]
  split
  · rw [next_congr (h _)]
  · rfl

theorem rounds_congr (n : Nat) (r : Ranks) : r.rounds preds n = r.rounds preds' n := by
  have hsweep : ∀ r : Ranks, r.sweep preds = r.sweep preds' := fun r => by
    simp only [sweep, settle_congr h]
  have hround : ∀ r : Ranks, r.round preds = r.round preds' := fun r => by
    simp only [round, hsweep, cut_congr h]
  induction n generalizing r with
  | zero => rfl
  | succ n ih => simp only [rounds, hround, ih]

end

end Ranks

-- ---------------------------------------------------------------------------
-- Ranks by ids
-- ---------------------------------------------------------------------------

def final (l : Level) : Ranks :=
  .rounds (predsOf l) l.nodes.length (Array.replicate l.nodes.length none)

theorem final_spec (l : Level) : (final l).complete ∧ (final l).size = l.nodes.length := by
  obtain ⟨hcomplete, hextends⟩ := Ranks.rounds_complete (predsOf l) (n := l.nodes.length)
    (r := Array.replicate l.nodes.length none) (by
      simpa [Ranks.unranked] using List.length_filter_le _ (List.range l.nodes.length))
  exact ⟨hcomplete, hextends.size.trans (by simp)⟩

theorem ofLevel_getElem? (l : Level) (i : Nat) : (ofLevel l)[i]? = (final l).rank? i := by
  obtain ⟨hcomplete, hsize⟩ := final_spec l
  have hlist : ofLevel l =
      (List.range l.nodes.length).map fun i => ((final l).rank? i).getD i := rfl
  rw [hlist, List.getElem?_map]
  cases hi : (final l).rank? i with
  | some k => simp [← hsize, Ranks.lt_size hi, hi]
  | none =>
    have hnot : i ∉ (final l).unranked := by simp [Ranks.complete_iff.mp hcomplete]
    have hlen : l.nodes.length ≤ i := by simpa [Ranks.mem_unranked, hi, hsize] using hnot
    simp [hlen]

/-- The ranks of a level depend on its connections and not on how they are listed. -/
theorem ofLevel_congr (hids : l.nodeIds = m.nodeIds) (harcs : ∀ a b, l.Arc a b ↔ m.Arc a b) :
    ofLevel l = ofLevel m := by
  have hlen : l.nodes.length = m.nodes.length := by
    simpa [Level.nodeIds] using congrArg List.length hids
  have hfinal : final l = final m := by
    unfold final
    rw [hlen]
    exact Ranks.rounds_congr (fun i p => by simp only [mem_predsOf, harcs, hids]) _ _
  refine List.ext_getElem? fun i => ?_
  rw [ofLevel_getElem?, ofLevel_getElem?, hfinal]

end Rank

namespace Level

variable {j k : Nat}

/-- The rank of a node, by its id. -/
def Ranked (l : Level) (id : String) (k : Nat) : Prop :=
  ∃ i : Nat, l.nodeIds[i]? = some id ∧ (Rank.ofLevel l)[i]? = some k

theorem lt_of_lastIndex (h : Rank.lastIndex id l.nodeIds = some i) : i < l.nodes.length := by
  obtain ⟨hlt, -⟩ := List.getElem?_eq_some_iff.mp (Rank.lastIndex_getElem? h)
  simpa [nodeIds] using hlt

theorem exists_ranked (h : id ∈ l.nodeIds) : ∃ k, l.Ranked id k := by
  obtain ⟨i, hi⟩ := List.mem_iff_getElem?.mp h
  obtain ⟨hlt, -⟩ := List.getElem?_eq_some_iff.mp hi
  have hlen : i < (Rank.ofLevel l).length := by simpa [Rank.ofLevel, nodeIds] using hlt
  exact ⟨_, i, hi, List.getElem?_eq_getElem hlen⟩

theorem Ranked.mem (h : l.Ranked id k) : id ∈ l.nodeIds := by
  obtain ⟨i, hi, -⟩ := h
  exact List.mem_of_getElem? hi

theorem ranked_iff (hd : l.nodeIds.Nodup) : l.Ranked id k ↔
    ∃ i, Rank.lastIndex id l.nodeIds = some i ∧ (Rank.final l).rank? i = some k := by
  simp only [Ranked, Rank.lastIndex_of_nodup hd, Rank.ofLevel_getElem?]

end Level

end Workflow

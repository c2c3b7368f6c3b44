import Mathlib.Algebra.GroupWithZero.Nat
import Workflow.Proofs.Layout.Slots

/-!
# A layout keeps the positions that are there

`apply_ok` says what a layout does in terms of its level and of the layouts of the subflows. With
it, a level and its layout have the same nodes in the same places, and a node that had a position
has it still, at every depth.
-/

namespace Workflow

variable {c : Layout} {l l' sub sub' : Level} {n n' : Node} {ns ns' : List Node} {i k : Nat}
variable {placed : List (Nat × Position)}

namespace Layout

-- ---------------------------------------------------------------------------
-- The layout of a level from those of its subflows
-- ---------------------------------------------------------------------------

/-- The layout of the subflow of a node, if there is one and the layout goes there. -/
def nested (c : Layout) (n : Node) : Option (Level × Nat) :=
  if c.recurse then n.subflow.bind c.apply else none

/-- The layout finds its slots in the subflow of a node. -/
def Ends (c : Layout) (n : Node) : Prop :=
  c.recurse → ∀ sub, n.subflow = some sub → (c.apply sub).isSome

/-- The node with its subflow laid out. -/
def laid (c : Layout) (n : Node) : Node :=
  match c.nested n with
  | some (sub, _) => n.setSubflow sub
  | none => n

/-- How many nodes are placed inside a node. -/
def placedInside (c : Layout) (n : Node) : Nat := ((c.nested n).map (·.2)).getD 0

@[simp] theorem laid_id : (c.laid n).id = n.id := by
  unfold laid
  split <;> rfl

@[simp] theorem laid_position : (c.laid n).position = n.position := by
  unfold laid
  split <;> rfl

theorem applySubflows_ok (hc : c.recurse) : c.applySubflows ns = some (ns', k) ↔
    (∀ n ∈ ns, c.Ends n) ∧ ns' = ns.map c.laid ∧ k = (ns.map c.placedInside).sum := by
  induction ns generalizing ns' k with
  | nil => simp [applySubflows, eq_comm]
  | cons n ns ih =>
    rw [applySubflows_cons, List.forall_mem_cons, List.map_cons, List.map_cons, List.sum_cons]
    cases hs : n.subflow with
    | none =>
      have hnested : c.nested n = none := by simp [nested, hs]
      have hends : c.Ends n := fun _ sub h => by cases hs.symm.trans h
      simp only [Option.map_eq_some_iff, Prod.exists, ih, Prod.mk.injEq, laid, placedInside,
        hnested, Option.map_none, Option.getD_none, Nat.zero_add]
      constructor
      · rintro ⟨_, _, ⟨hall, rfl, rfl⟩, rfl, rfl⟩
        exact ⟨⟨hends, hall⟩, rfl, rfl⟩
      · rintro ⟨⟨-, hall⟩, rfl, rfl⟩
        exact ⟨_, _, ⟨hall, rfl, rfl⟩, rfl, rfl⟩
    | some sub =>
      have hnested : c.nested n = c.apply sub := by simp [nested, hs, hc]
      have hends : c.Ends n ↔ (c.apply sub).isSome := by simp [Ends, hs, hc]
      rw [hends, laid, placedInside, hnested]
      cases happly : c.apply sub with
      | none => simp [happly]
      | some r =>
        simp only [happly, Option.bind_some, Option.map_eq_some_iff, Prod.exists, ih, Prod.mk.injEq]
        constructor
        · rintro ⟨_, _, ⟨hall, rfl, rfl⟩, rfl, rfl⟩
          exact ⟨⟨rfl, hall⟩, rfl, rfl⟩
        · rintro ⟨⟨-, hall⟩, rfl, rfl⟩
          exact ⟨_, _, ⟨hall, rfl, rfl⟩, rfl, rfl⟩

/-- A layout is one of the level itself, with the subflows of its nodes laid out. -/
theorem apply_ok : c.apply l = some (l', k) ↔ (∀ n ∈ l.nodes, c.Ends n) ∧
    ∃ j, c.placeLevel ⟨l.nodes.map c.laid, l.edges⟩ = some (l', j) ∧
      k = j + (l.nodes.map c.placedInside).sum := by
  obtain ⟨nodes, edges⟩ := l
  by_cases hc : c.recurse
  · simp only [apply, if_pos hc, Option.bind_eq_bind]
    simp only [Option.bind_eq_some_iff, applySubflows_ok hc, Option.pure_def, Prod.exists,
      Option.some.injEq, Prod.mk.injEq]
    constructor
    · rintro ⟨_, _, ⟨hends, rfl, rfl⟩, _, _, hplaced, rfl, rfl⟩
      exact ⟨hends, _, hplaced, rfl⟩
    · rintro ⟨hends, _, hplaced, rfl⟩
      exact ⟨_, _, ⟨hends, rfl, rfl⟩, _, _, hplaced, rfl, rfl⟩
  · have hlaid : c.laid = id := funext fun n => by simp [laid, nested, hc]
    have hinside : c.placedInside = fun _ => 0 := funext fun n => by simp [placedInside, nested, hc]
    have hsum : (nodes.map fun _ => 0).sum = 0 := by simp
    simp only [apply, if_neg hc, Option.bind_eq_bind, hlaid, hinside, hsum, List.map_id,
      Nat.add_zero]
    simp only [Option.bind_eq_some_iff, Option.pure_def, Prod.exists, Option.some.injEq,
      Prod.mk.injEq]
    constructor
    · rintro ⟨_, _, ⟨rfl, rfl⟩, _, _, hplaced, rfl, rfl⟩
      exact ⟨fun _ _ h => absurd h hc, _, hplaced, rfl⟩
    · rintro ⟨-, _, hplaced, rfl⟩
      exact ⟨_, _, ⟨rfl, rfl⟩, _, _, hplaced, rfl, rfl⟩

end Layout

-- ---------------------------------------------------------------------------
-- Positions that stay
-- ---------------------------------------------------------------------------

/-- `n'` is `n` but for positions, and the position of `n` itself stays. -/
structure Node.Filled (n n' : Node) : Prop where
  same : n'.unplaced = n.unplaced
  kept : ∀ p, n.position = some p → n'.position = some p

/-- The nodes of one level are those of the other with more positions, at every depth. -/
inductive Level.Fills : Level → Level → Prop
  | intro {l l' : Level} (edges : l'.edges = l.edges) (length : l'.nodes.length = l.nodes.length)
      (nodes : ∀ (i : Nat) n n', l.nodes[i]? = some n → l'.nodes[i]? = some n' → n.Filled n')
      (inside : ∀ (i : Nat) n n' sub sub', l.nodes[i]? = some n → l'.nodes[i]? = some n' →
        n.subflow = some sub → n'.subflow = some sub' → Fills sub sub') : Fills l l'

theorem Level.Fills.refl (l : Level) : l.Fills l := by
  induction l using Level.induction with
  | h l ih =>
    refine .intro rfl rfl (fun i n n' hn hn' => ?_) fun i n n' sub sub' hn hn' hs hs' => ?_
    · cases hn.symm.trans hn'
      exact ⟨rfl, fun _ h => h⟩
    · cases hn.symm.trans hn'
      cases hs.symm.trans hs'
      exact ih n (List.mem_of_getElem? hn) sub hs

namespace Layout

theorem given_eq (placed : List (Nat × Position)) (i : Nat) (n : Node) :
    given placed i n = { n with position := (placed.lookup i).or n.position } := by
  obtain ⟨id, kind, position, label, data⟩ := n
  unfold given
  cases placed.lookup i <;> simp

theorem given_subflow (placed : List (Nat × Position)) (i : Nat) (n : Node) :
    (given placed i n).subflow = n.subflow := by
  rw [given_eq]
  rfl

theorem given_kept {p : Position} (h : c.placements l = some placed) (hn : l.nodes[i]? = some n)
    (hp : n.position = some p) : (given placed i n).position = some p := by
  rw [given_eq]
  cases hq : placed.lookup i with
  | none => exact hp
  | some q =>
    obtain ⟨rank, -, ps, hps, hmem⟩ := (mem_placements h).mp ((lookup_placements h).mp hq)
    obtain ⟨-, m, hm, hnone⟩ := placed_in_rank hps hmem
    cases hn.symm.trans hm
    rw [hp] at hnone
    cases hnone

theorem nested_unplaced (h : c.nested n = some (sub', k)) :
    ∃ sub, n.subflow = some sub ∧ c.apply sub = some (sub', k) := by
  unfold nested at h
  split at h
  · exact Option.bind_eq_some_iff.mp h
  · cases h

theorem laid_unplaced : (c.laid n).unplaced = n.unplaced := by
  unfold laid
  split
  · rename_i sub' k h
    obtain ⟨sub, hs, hsub⟩ := nested_unplaced h
    have hsame := apply_unplaced hsub
    obtain ⟨id, kind, position, label, _ | ⟨task, enabled, combined, _ | inner, combining⟩⟩ := n
    · cases hs
    · cases hs
    · cases hs
      simp [Node.unplaced, Node.setSubflow, Node.mapData, TaskData.unplaced, hsame]
  · rfl

/-- A subflow of a laid out node is the layout of the subflow it had, or that one if the layout does
not go there. -/
theorem laid_subflow (hends : c.Ends n) (hs : n.subflow = some sub)
    (hs' : (c.laid n).subflow = some sub') :
    (c.recurse → ∃ k, c.apply sub = some (sub', k)) ∧ (¬ c.recurse → sub' = sub) := by
  refine ⟨fun hc => ?_, fun hc => ?_⟩
  · obtain ⟨⟨inner, k⟩, happly⟩ := Option.isSome_iff_exists.mp (hends hc sub hs)
    have hnested : c.nested n = some (inner, k) := by simp [nested, hc, hs, happly]
    rw [laid, hnested, Node.setSubflow_subflow hs] at hs'
    cases hs'
    exact ⟨k, happly⟩
  · have hnested : c.nested n = none := by simp [nested, hc]
    rw [laid, hnested] at hs'
    exact Option.some.inj (hs'.symm.trans hs)

theorem laid_subflow_isSome : (c.laid n).subflow.isSome = n.subflow.isSome := by
  have hsame := congrArg (fun n => n.subflow.isSome) (laid_unplaced (c := c) (n := n))
  simpa only [Node.unplaced_subflow, Option.isSome_map] using hsame

/-- The level `l'` is `l` with its subflows laid out and the given positions. -/
structure Places (c : Layout) (placed : List (Nat × Position)) (l l' : Level) : Prop where
  placements : c.placements ⟨l.nodes.map c.laid, l.edges⟩ = some placed
  edges : l'.edges = l.edges
  nodes : ∀ i : Nat, l'.nodes[i]? = l.nodes[i]?.map fun n => given placed i (c.laid n)

theorem apply_places (h : c.apply l = some (l', k)) :
    (∀ n ∈ l.nodes, c.Ends n) ∧ ∃ placed, c.Places placed l l' := by
  obtain ⟨hends, j, hplaced, -⟩ := apply_ok.mp h
  obtain ⟨placed, hplacements, hedges, hnodes, -⟩ := placeLevel_ok.mp hplaced
  refine ⟨hends, placed, hplacements, hedges, fun i => ?_⟩
  rw [hnodes i, List.getElem?_map, Option.map_map]
  rfl

/-- The layout of a level has its nodes in its places, with all positions that were there. -/
theorem apply_fills (h : c.apply l = some (l', k)) : l.Fills l' := by
  induction l using Level.induction generalizing l' k with
  | h l ih =>
    obtain ⟨hends, placed, hplacements, hedges, hnodes⟩ := apply_places h
    have hlen : l'.nodes.length = l.nodes.length := by
      have hsame := congrArg (·.nodes.length) (apply_unplaced h)
      simpa [Level.unplaced_nodes] using hsame
    refine .intro hedges hlen (fun i n n' hn hn' => ?_) fun i n n' sub sub' hn hn' hs hs' => ?_
    · rw [hnodes i, hn, Option.map_some] at hn'
      cases hn'
      refine ⟨(unplaced_given _ _).trans laid_unplaced, fun p hp => ?_⟩
      have hlaid : (l.nodes.map c.laid)[i]? = some (c.laid n) := by simp [hn]
      exact given_kept hplacements hlaid (laid_position.trans hp)
    · rw [hnodes i, hn, Option.map_some] at hn'
      cases hn'
      have hsub : (c.laid n).subflow = some sub' := given_subflow placed i _ ▸ hs'
      have hmem := List.mem_of_getElem? hn
      obtain ⟨hgoes, hstays⟩ := laid_subflow (hends n hmem) hs hsub
      by_cases hc : c.recurse
      · obtain ⟨j, happly⟩ := hgoes hc
        exact ih n hmem sub hs happly
      · exact hstays hc ▸ .refl sub

end Layout

end Workflow

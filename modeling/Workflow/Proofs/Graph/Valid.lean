import Mathlib.Data.List.Forall2
import Workflow.Graph.Validity
import Workflow.Proofs.Graph.Nodes

/-!
# What the check of a level decides

`validate_ok`: the check accepts a level exactly if at every depth node ids are distinct, task
nodes carry a task, and edges join nodes of their level. The properties of single levels are lifted
to all levels inside by `Everywhere`, which follows the nesting of subflows. `ConsistsOf` reads such
a property node by node, and says what changing, adding and leaving out nodes keeps.
-/

namespace Workflow

theorem bind_ok {ε α β : Type} {x : Except ε α} {f : α → Except ε β} {b : β} :
    x >>= f = .ok b ↔ ∃ a, x = .ok a ∧ f a = .ok b := by
  cases x <;> simp [bind, Except.bind]

theorem toOption_eq_some {ε α : Type} {x : Except ε α} {y : α} :
    x.toOption = some y ↔ x = .ok y := by
  cases x <;> simp [Except.toOption]

theorem exists_of_forall₂ {α β : Type} {R : α → β → Prop} {xs : List α} {ys : List β} {y : β}
    (h : List.Forall₂ R xs ys) (hy : y ∈ ys) : ∃ x ∈ xs, R x y := by
  induction h with
  | nil => cases hy
  | cons hr _ ih =>
    rcases List.mem_cons.mp hy with rfl | hy
    · exact ⟨_, List.mem_cons_self, hr⟩
    · obtain ⟨x, hx, hr⟩ := ih hy
      exact ⟨x, List.mem_cons_of_mem _ hx, hr⟩

theorem nodup_eraseDups {α : Type} [BEq α] [LawfulBEq α] : ∀ xs : List α, xs.eraseDups.Nodup
  | [] => .nil
  | x :: xs => by
    have hrest := nodup_eraseDups (xs.filter fun y => !y == x)
    rw [List.eraseDups_cons, List.nodup_cons, List.mem_eraseDups]
    exact ⟨by simp, hrest⟩
termination_by xs => xs.length
decreasing_by exact Nat.lt_succ_of_le (List.length_filter_le _ _)

theorem eraseDupsBy_concat {α : Type} {r : α → α → Bool} {xs : List α} {x : α} :
    (xs ++ [x]).eraseDupsBy r =
      if (xs.eraseDupsBy r).any (r x) then xs.eraseDupsBy r else xs.eraseDupsBy r ++ [x] := by
  suffices h : ∀ seen, List.eraseDupsBy.loop r (xs ++ [x]) seen =
      if (List.eraseDupsBy.loop r xs seen).any (r x) then List.eraseDupsBy.loop r xs seen
      else List.eraseDupsBy.loop r xs seen ++ [x] from h []
  induction xs with
  | nil =>
    intro seen
    simp only [List.nil_append, List.eraseDupsBy.loop, List.any_reverse]
    cases seen.any (r x) <;> simp
  | cons y ys ih =>
    intro seen
    simp only [List.cons_append, List.eraseDupsBy.loop]
    by_cases hy : seen.any (r y) <;> simp only [hy, ih]

theorem eraseDups_concat {α : Type} [DecidableEq α] {xs : List α} {x : α} :
    (xs ++ [x]).eraseDups =
      if x ∈ xs.eraseDups then xs.eraseDups else xs.eraseDups ++ [x] := by
  have hmem : xs.eraseDups.any (x == ·) = true ↔ x ∈ xs.eraseDups := by simp
  rw [List.eraseDups, eraseDupsBy_concat]
  exact if_congr hmem rfl rfl

/-- Both ends of an edge are among the given ids. -/
def Edge.Within (ids : List String) (e : Edge) : Prop :=
  e.source ∈ ids ∧ e.target ∈ ids

theorem Edge.Within.mono {e : Edge} {ids ids' : List String} (h : e.Within ids) (hsub : ids ⊆ ids') :
    e.Within ids' :=
  ⟨hsub h.1, hsub h.2⟩

namespace Level

variable {l sub : Level} {n : Node} {ns : List Node} {es : List Edge} {ids seen : List String}
variable {P Q : Level → Prop}

-- ---------------------------------------------------------------------------
-- Induction on the nesting of levels
-- ---------------------------------------------------------------------------

theorem subflow_lt (hn : n ∈ l.nodes) (hs : n.subflow = some sub) : sizeOf sub < sizeOf l := by
  obtain ⟨nodes, edges⟩ := l
  have hlt := List.sizeOf_lt_of_mem hn
  obtain ⟨id, kind, position, label, _ | ⟨task, enabled, combined, subflow, combining⟩⟩ := n
  · cases hs
  · simp only [Node.subflow, Option.bind_some] at hs
    subst hs
    simp only [Level.mk.sizeOf_spec, Node.mk.sizeOf_spec, Option.some.sizeOf_spec,
      TaskData.mk.sizeOf_spec] at hlt ⊢
    omega

/-- What holds of a level as soon as it holds of the subflows of its nodes holds of all levels. -/
@[elab_as_elim]
theorem induction (h : ∀ l, (∀ n ∈ l.nodes, ∀ sub, n.subflow = some sub → P sub) → P l)
    (l : Level) : P l :=
  h l fun _ hn sub hs =>
    have := subflow_lt hn hs
    induction h sub
termination_by sizeOf l

/-- `P` holds of a level and of all levels inside it. -/
inductive Everywhere (P : Level → Prop) : Level → Prop
  | intro {l : Level} : P l → (∀ n ∈ l.nodes, ∀ sub, n.subflow = some sub → Everywhere P sub) →
      Everywhere P l

theorem Everywhere.here : l.Everywhere P → P l
  | .intro h _ => h

theorem Everywhere.inside (h : l.Everywhere P) (hn : n ∈ l.nodes) (hs : n.subflow = some sub) :
    sub.Everywhere P :=
  match h with
  | .intro _ hb => hb n hn sub hs

theorem Everywhere.mono (hPQ : ∀ l, P l → Q l) (h : l.Everywhere P) : l.Everywhere Q := by
  induction h with
  | intro h _ ih => exact .intro (hPQ _ h) ih

-- ---------------------------------------------------------------------------
-- Validity
-- ---------------------------------------------------------------------------

/-- A level that is well-formed on its own, whatever its subflows are. -/
structure Valid (l : Level) : Prop where
  ids : l.nodeIds.Nodup
  tasks : ∀ n ∈ l.nodes, n.kind = .task → n.carriesTask
  edges : ∀ e ∈ l.edges, e.Within l.nodeIds

theorem checkNodes_ok : checkNodes seen ns = .ok () ↔
    (ns.map (·.id)).Nodup ∧ (∀ n ∈ ns, n.id ∉ seen) ∧
      ∀ n ∈ ns, n.kind = .task → n.carriesTask := by
  induction ns generalizing seen with
  | nil => simp [checkNodes]
  | cons n ns ih =>
    simp only [checkNodes]
    split
    · rename_i hseen
      simp [hseen]
    · split
      · rename_i hseen htask
        simp only [reduceCtorEq, false_iff]
        rintro ⟨-, -, h⟩
        have := h n List.mem_cons_self htask.1
        simp_all
      · rename_i hseen htask
        have hn : n.kind = .task → n.carriesTask = true := by simpa using htask
        rw [ih]
        simp only [List.map_cons, List.nodup_cons, List.mem_map, not_exists, not_and,
          List.forall_mem_cons, List.mem_cons (b := n.id), not_or]
        constructor
        · rintro ⟨hd, hfresh, hall⟩
          exact ⟨⟨fun m hm => (hfresh m hm).1, hd⟩, ⟨hseen, fun m hm => (hfresh m hm).2⟩, hn, hall⟩
        · rintro ⟨⟨hne, hd⟩, ⟨-, hfresh⟩, -, hall⟩
          exact ⟨hd, fun m hm => ⟨hne m hm, hfresh m hm⟩, hall⟩

theorem checkEdges_ok : checkEdges ids es = .ok () ↔ ∀ e ∈ es, e.Within ids := by
  induction es with
  | nil => simp [checkEdges]
  | cons e es ih =>
    rw [List.forall_mem_cons, ← ih, Edge.Within, checkEdges]
    split
    · simp_all
    · split <;> simp_all

theorem validateSubflows_cons : validateSubflows (n :: ns) =
    match n.subflow with
    | none => validateSubflows ns
    | some sub =>
      match sub.validate with
      | .error e => .error (.subflow n.id e)
      | .ok () => validateSubflows ns := by
  obtain ⟨id, kind, position, label, _ | ⟨task, enabled, combined, _ | sub, combining⟩⟩ := n <;> rfl

theorem validateSubflows_ok : validateSubflows ns = .ok () ↔
    ∀ n ∈ ns, ∀ sub, n.subflow = some sub → sub.validate = .ok () := by
  induction ns with
  | nil => simp [validateSubflows]
  | cons n ns ih =>
    rw [validateSubflows_cons, List.forall_mem_cons, ← ih]
    cases n.subflow with
    | none => simp
    | some sub => cases h : sub.validate <;> simp [h]

theorem validate_here : l.validate = .ok () ↔
    l.Valid ∧ ∀ n ∈ l.nodes, ∀ sub, n.subflow = some sub → sub.validate = .ok () := by
  obtain ⟨nodes, edges⟩ := l
  simp only [validate, bind_ok]
  constructor
  · rintro ⟨⟨⟩, hn, ⟨⟩, he, hs⟩
    obtain ⟨hd, -, ht⟩ := checkNodes_ok.mp hn
    exact ⟨⟨hd, ht, checkEdges_ok.mp he⟩, validateSubflows_ok.mp hs⟩
  · rintro ⟨⟨hd, ht, he⟩, hs⟩
    exact ⟨(), checkNodes_ok.mpr ⟨hd, by simp, ht⟩, (), checkEdges_ok.mpr he,
      validateSubflows_ok.mpr hs⟩

/-- A level passes the check exactly if it and every level inside it is well-formed. -/
theorem validate_ok : l.validate = .ok () ↔ l.Everywhere Valid := by
  induction l using Level.induction with
  | h l ih =>
    rw [validate_here]
    constructor
    · rintro ⟨hv, hs⟩
      exact .intro hv fun n hn sub hsub => (ih n hn sub hsub).mp (hs n hn sub hsub)
    · intro h
      exact ⟨h.here, fun n hn sub hsub => (ih n hn sub hsub).mpr (h.inside hn hsub)⟩

-- ---------------------------------------------------------------------------
-- Node by node
-- ---------------------------------------------------------------------------

/-- Ids are distinct, edges join nodes of the level, and every node has a property. -/
structure ConsistsOf (N : Node → Prop) (l : Level) : Prop where
  ids : l.nodeIds.Nodup
  nodes : ∀ n ∈ l.nodes, N n
  edges : ∀ e ∈ l.edges, e.Within l.nodeIds

namespace ConsistsOf

variable {N M : Node → Prop} {id : String} {g : Node → Node}

theorem mono (hNM : ∀ n, N n → M n) (h : l.ConsistsOf N) : l.ConsistsOf M :=
  ⟨h.ids, fun n hn => hNM n (h.nodes n hn), h.edges⟩

/-- Nodes may change, but not their ids. -/
theorem mapNode (h : l.ConsistsOf N) (hid : ∀ n, n.id = id → (g n).id = id)
    (hg : ∀ n ∈ l.nodes, n.id = id → N (g n)) : (l.mapNode id g).ConsistsOf N := by
  refine ⟨?_, fun m hm => ?_, ?_⟩
  · rw [nodeIds_mapNode hid]
    exact h.ids
  · rcases mem_mapFirst hm with hm | ⟨n, hn, hid', rfl⟩
    · exact h.nodes m hm
    · exact hg n hn hid'
  · rw [nodeIds_mapNode hid]
    exact h.edges

/-- A node may come to a level anywhere, under an id of its own. -/
theorem insert (h : l.ConsistsOf N) (hn : N n) (hid : n.id ∉ l.nodeIds)
    (hns : ns.Perm (n :: l.nodes)) : (⟨ns, l.edges⟩ : Level).ConsistsOf N := by
  have hids : (ns.map (·.id)).Perm (n.id :: l.nodeIds) := hns.map (·.id)
  refine ⟨hids.nodup_iff.mpr (List.nodup_cons.mpr ⟨hid, h.ids⟩), fun m hm => ?_, fun e he => ?_⟩
  · rcases List.mem_cons.mp (hns.subset hm) with rfl | hm
    · exact hn
    · exact h.nodes m hm
  · exact (h.edges e he).mono fun id hid => hids.symm.subset (List.mem_cons_of_mem _ hid)

/-- Nodes may go together with all edges that touch them. -/
theorem restrict (gone : List String) (h : l.ConsistsOf N) (hns : ns.Sublist l.nodes)
    (hgone : ∀ n ∈ l.nodes, n ∈ ns ∨ n.id ∈ gone)
    (hes : ∀ e ∈ es, e ∈ l.edges ∧ e.source ∉ gone ∧ e.target ∉ gone) :
    (⟨ns, es⟩ : Level).ConsistsOf N := by
  have stays : ∀ id ∈ l.nodeIds, id ∉ gone → id ∈ ns.map (·.id) := by
    intro id hid hfree
    obtain ⟨n, hn, rfl⟩ := List.mem_map.mp hid
    exact List.mem_map_of_mem ((hgone n hn).resolve_right hfree)
  refine ⟨h.ids.sublist (hns.map _), fun n hn => h.nodes n (hns.subset hn), fun e hmem => ?_⟩
  obtain ⟨hmem, hs, ht⟩ := hes e hmem
  exact ⟨stays _ (h.edges e hmem).1 hs, stays _ (h.edges e hmem).2 ht⟩

theorem remove (h : l.ConsistsOf N) (id : String) :
    (⟨eraseFirst id l.nodes, l.edges.filter (!·.touches id)⟩ : Level).ConsistsOf N := by
  refine h.restrict [id] List.eraseP_sublist (fun n hn => ?_) fun e he => ?_
  · rw [eraseFirst_eq_filter h.ids]
    by_cases hid : n.id = id
    · exact .inr (List.mem_singleton.mpr hid)
    · exact .inl (List.mem_filter.mpr ⟨hn, by simpa using hid⟩)
  · obtain ⟨hmem, htouch⟩ := List.mem_filter.mp he
    exact ⟨hmem, by simpa [Edge.touches] using htouch⟩

end ConsistsOf

end Level

/-- A node that is well-formed, and so is everything inside it. -/
structure Node.Valid (n : Node) : Prop where
  task : n.kind = .task → n.carriesTask
  inside : ∀ sub, n.subflow = some sub → sub.Everywhere Level.Valid

theorem Level.valid_iff {l : Level} : l.Everywhere Valid ↔ l.ConsistsOf Node.Valid := by
  constructor
  · intro h
    exact ⟨h.here.ids, fun n hn => ⟨h.here.tasks n hn, fun sub hs => h.inside hn hs⟩, h.here.edges⟩
  · rintro ⟨hd, hn, he⟩
    exact .intro ⟨hd, fun n h => (hn n h).task, he⟩ fun n h sub hs => (hn n h).inside sub hs

end Workflow

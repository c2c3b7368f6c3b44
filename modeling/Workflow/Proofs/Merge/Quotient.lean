import Mathlib.Data.List.Forall2
import Workflow.Proofs.Merge.Effects

/-!
# A merged level is a quotient

A commit of `b` onto `a` identifies `b` with `a`. The edges that stay are a selection of the old ones
in their order; it holds all that do not touch `b`, and of those that do, the first one for each
connection that is neither a loop nor there already.
-/

namespace Workflow.Merge

/-- What an id stands for once `b` is `a`. -/
def image (a b id : String) : String := if id = b then a else id

variable {a b id : String} {e f : Edge} {es : List Edge} {present : List Connection}

theorem image_ne (h : a ≠ b) : image a b id ≠ b := by
  unfold image
  split
  · exact h
  · assumption

theorem image_of_ne (h : id ≠ b) : image a b id = id := if_neg h

theorem redirect_untouched (h : e.touches b = false) : redirect a b e = e := by
  have h : e.source ≠ b ∧ e.target ≠ b := by simpa [Edge.touches] using h
  simp [redirect, h]

-- ---------------------------------------------------------------------------
-- The edges that stay
-- ---------------------------------------------------------------------------

/-- The edges that stay, as they were before. -/
def kept (a b : String) (present : List Connection) : List Edge → List Edge
  | [] => []
  | e :: es =>
    if e.touches b then
      let e' := redirect a b e
      if e'.source = e'.target ∨ connection e' ∈ present then kept a b present es
      else e :: kept a b (connection e' :: present) es
    else e :: kept a b present es

theorem redirectAll_edges :
    (redirectAll a b present es).edges = (kept a b present es).map (redirect a b) := by
  induction es generalizing present with
  | nil => rfl
  | cons e es ih =>
    simp only [redirectAll, kept]
    by_cases ht : e.touches b = true
    · simp only [ht, if_true]
      by_cases hd : (redirect a b e).source = (redirect a b e).target ∨
          connection (redirect a b e) ∈ present
      · rw [if_pos hd, if_pos hd, Redirected.drop, ih]
      · rw [if_neg hd, if_neg hd, Redirected.keep, List.map_cons, ih]
    · rw [if_neg ht, if_neg ht, Redirected.keep, List.map_cons, redirect_untouched (by simpa using ht),
        ih]

/-- An edge stays or is counted. -/
theorem redirectAll_counts :
    (redirectAll a b present es).dropped + (redirectAll a b present es).edges.length = es.length := by
  induction es generalizing present with
  | nil => rfl
  | cons e es ih =>
    have keep (present : List Connection) (e' : Edge) :
        ((redirectAll a b present es).keep e').dropped +
          ((redirectAll a b present es).keep e').edges.length = (e :: es).length := by
      rw [Redirected.keep, List.length_cons, List.length_cons, ← Nat.add_assoc, ih]
    simp only [redirectAll]
    split
    · split
      · rw [Redirected.drop, List.length_cons, Nat.add_right_comm, ih]
      · exact keep _ _
    · exact keep _ _

theorem kept_sublist : (kept a b present es).Sublist es := by
  induction es generalizing present with
  | nil => exact .slnil
  | cons e es ih =>
    simp only [kept]
    split
    · split
      · exact ih.cons e
      · exact ih.cons_cons e
    · exact ih.cons_cons e

/-- All edges that do not touch `b` stay, in their order. -/
theorem kept_untouched :
    (kept a b present es).filter (!·.touches b) = es.filter (!·.touches b) := by
  induction es generalizing present with
  | nil => rfl
  | cons e es ih =>
    simp only [kept]
    split
    · rename_i htouch
      split <;> simp [htouch, ih]
    · rename_i hun
      simp [hun, ih]

theorem kept_fresh (hf : f ∈ kept a b present es) (ht : f.touches b = true) :
    (redirect a b f).source ≠ (redirect a b f).target ∧ connection (redirect a b f) ∉ present := by
  induction es generalizing present with
  | nil => cases hf
  | cons e es ih =>
    simp only [kept] at hf
    split at hf
    · split at hf
      · exact ih hf
      · rename_i hkeep
        rcases List.mem_cons.mp hf with rfl | hf
        · simpa using hkeep
        · obtain ⟨hne, hnot⟩ := ih hf
          exact ⟨hne, fun h => hnot (List.mem_cons_of_mem _ h)⟩
    · rename_i hun
      rcases List.mem_cons.mp hf with rfl | hf
      · exact absurd ht hun
      · exact ih hf

/-- An edge that touches `b` and does not stay is a loop or repeats a connection. -/
theorem kept_covers (he : e ∈ es) (ht : e.touches b = true)
    (hne : (redirect a b e).source ≠ (redirect a b e).target) :
    connection (redirect a b e) ∈ present ∨
      ∃ f ∈ kept a b present es, connection (redirect a b f) = connection (redirect a b e) := by
  induction es generalizing present with
  | nil => cases he
  | cons e' es ih =>
    simp only [kept]
    rcases List.mem_cons.mp he with rfl | he
    · simp only [ht, if_true]
      split
      · rename_i hdrop
        exact .inl (hdrop.resolve_left hne)
      · exact .inr ⟨e, List.mem_cons_self, rfl⟩
    · split
      · split
        · exact ih he
        · -- The list has grown by an edge that stays, so either the old list or that edge covers `e`.
          rcases @ih (connection (redirect a b e') :: present) he with h | ⟨f, hf, h⟩
          · rcases List.mem_cons.mp h with h | h
            · exact .inr ⟨e', List.mem_cons_self, h.symm⟩
            · exact .inl h
          · exact .inr ⟨f, List.mem_cons_of_mem _ hf, h⟩
      · rcases ih he with h | ⟨f, hf, h⟩
        · exact .inl h
        · exact .inr ⟨f, List.mem_cons_of_mem _ hf, h⟩

/-- Where `present` lists all connections that do not touch `b`, no redirected edge repeats the
connection of another edge, wherever that stands. -/
theorem kept_pairwise
    (hp : ∀ e ∈ es, e.touches b = false → connection (redirect a b e) ∈ present) :
    (kept a b present es).Pairwise fun e f =>
      e.touches b = true ∨ f.touches b = true →
        connection (redirect a b e) ≠ connection (redirect a b f) := by
  induction es generalizing present with
  | nil => exact .nil
  | cons e es ih =>
    have hp' : ∀ e ∈ es, e.touches b = false → connection (redirect a b e) ∈ present :=
      fun f hf => hp f (List.mem_cons_of_mem _ hf)
    simp only [kept]
    split
    · split
      · exact ih hp'
      · rename_i hkeep
        -- A later edge that touches `b` is checked against this one, any other is listed already.
        refine .cons ?_ (ih fun f hf hun => List.mem_cons_of_mem _ (hp' f hf hun))
        intro f hf _ heq
        cases hft : f.touches b with
        | true => exact (kept_fresh hf hft).2 (heq ▸ List.mem_cons_self)
        | false => exact hkeep (.inr (heq ▸ hp' f (kept_sublist.subset hf) hft))
    · rename_i hun
      refine .cons ?_ (ih hp')
      intro f hf ht heq
      have hft := ht.resolve_left hun
      exact (kept_fresh hf hft).2 (heq ▸ hp e List.mem_cons_self (by simpa using hun))

-- ---------------------------------------------------------------------------
-- The nodes that stay
-- ---------------------------------------------------------------------------

section
variable {j : String} {l : Level} {t : Task} {ts : List Task}

@[simp] theorem takeOver_id (n : Node) : (takeOver a t ts n).id = n.id := by
  unfold takeOver
  split <;> rfl

theorem nodeIds_quotient : (quotient a b t ts l).nodeIds = l.nodeIds.filter (· ≠ b) := by
  have hids : l.nodeIds.filter (· ≠ b) = (l.nodes.filter (·.id ≠ b)).map (·.id) :=
    (Level.ids_filter_ne l.nodes b).symm
  rw [hids, Level.nodeIds, quotient, List.map_map]
  exact List.map_congr_left fun n _ => takeOver_id n

theorem node?_quotient : (quotient a b t ts l).node? j =
    if j = b then none
    else if j = a then (l.node? a).map (·.mapData fun d =>
      { d with task := t, combined := some ts, combining := false })
    else l.node? j := by
  simp only [quotient, Level.node?, List.find?_map, Function.comp_def, takeOver_id,
    Level.find?_filter_ne]
  split
  · rfl
  cases hn : l.nodes.find? (·.id == j) with
  | none =>
    split
    · rename_i ha
      simp [← ha, hn]
    · rfl
  | some n =>
    have hid : n.id = j := by simpa using List.find?_some hn
    split
    · rename_i ha
      simp [← ha, hn, takeOver, hid]
    · rename_i ha
      have hid : n.id ≠ a := hid ▸ ha
      simp [takeOver, hid]

theorem data?_quotient : (quotient a b t ts l).data? j =
    if j = b then none
    else if j = a then
      (l.data? a).map fun d => { d with task := t, combined := some ts, combining := false }
    else l.data? j := by
  simp only [Level.data?, node?_quotient]
  split
  · rfl
  split
  · cases l.node? a <;> rfl
  · rfl

/-- A merge takes the dropped node out, changes the target, and keeps the rest. -/
theorem perm_quotient {na nb : Node} (t : Task) (ts : List Task) (hab : a ≠ b) (hd : l.nodeIds.Nodup)
    (ha : l.node? a = some na) (hb : l.node? b = some nb) :
    ∃ rest, l.nodes.Perm (nb :: na :: rest) ∧
      (quotient a b t ts l).nodes.Perm (takeOver a t ts na :: rest) := by
  obtain ⟨hna, rfl⟩ := Level.node?_mem ha
  obtain ⟨hnb, rfl⟩ := Level.node?_mem hb
  have hstay : na ∈ l.nodes.filter (·.id ≠ nb.id) :=
    List.mem_filter.mpr ⟨hna, by simpa using hab⟩
  have hstayIds : ((l.nodes.filter (·.id ≠ nb.id)).map (·.id)).Nodup :=
    hd.sublist (List.filter_sublist.map _)
  have hrest := Level.perm_filter_ne hstayIds hstay
  refine ⟨_, (Level.perm_filter_ne hd hnb).trans (hrest.cons nb), ?_⟩
  have hsame : ((l.nodes.filter (·.id ≠ nb.id)).filter (·.id ≠ na.id)).map (takeOver na.id t ts) =
      (l.nodes.filter (·.id ≠ nb.id)).filter (·.id ≠ na.id) := by
    refine (List.map_congr_left fun n hn => if_neg ?_).trans (List.map_id _)
    simpa using (List.mem_filter.mp hn).2
  have hmap := hrest.map (takeOver na.id t ts)
  rwa [List.map_cons, hsame] at hmap

end

-- ---------------------------------------------------------------------------
-- The quotient of a graph
-- ---------------------------------------------------------------------------

/-- An edge led over to the target: both ends change as their ids do, and nothing else. -/
structure Moved (a b : String) (e e' : Edge) : Prop where
  id : e'.id = e.id
  source : e'.source = image a b e.source
  target : e'.target = image a b e.target
  label : e'.label = e.label
  animated : e'.animated = e.animated
  unchanged : e.touches b = false → e' = e

/-- A phase after `b` became `a`. -/
structure PhaseMoved (a b : String) (ph ph' : Phase) : Prop where
  id : ph'.id = ph.id
  name : ph'.name = ph.name
  color : ph'.color = ph.color
  nodeIds : ∀ id, id ∈ ph'.nodeIds ↔ ∃ j ∈ ph.nodeIds, image a b j = id
  unchanged : b ∉ ph.nodeIds → ph' = ph

/-- `g'` is the graph `g` with `b` identified with `a`, which carries the merged task. -/
structure IsQuotient (a b : String) (task : Task) (sources : List Task) (g g' : Graph) : Prop where
  /-- The nodes without `b` in their order; only `a` changes, and only in what a merge makes. -/
  nodes : List.Forall₂ (fun n n' => (n.id ≠ a → n' = n) ∧ (n.id = a → ∃ d, n.data = some d ∧
      n' = { n with data := some { d with task, combined := some sources, combining := false } }))
    (g.nodes.filter (·.id ≠ b)) g'.nodes
  /-- A selection of the edges stays in order: all that do not touch `b`, and of those that do none
  whose connection another edge of the selection has. -/
  edges : ∃ stay, stay.Sublist g.edges ∧
    stay.filter (!·.touches b) = g.edges.filter (!·.touches b) ∧
    List.Forall₂ (Moved a b) stay g'.edges ∧
    stay.Pairwise fun e f => e.touches b = true ∨ f.touches b = true →
      (image a b e.source, image a b e.target) ≠ (image a b f.source, image a b f.target)
  free : ∀ e ∈ g'.edges, e.touches b = false
  /-- The connections are the images of the old ones without the loops that `b` gives rise to. -/
  connections : ∀ source target, (∃ e ∈ g'.edges, e.source = source ∧ e.target = target) ↔
    ∃ e ∈ g.edges, image a b e.source = source ∧ image a b e.target = target ∧
      (e.touches b = true → source ≠ target)
  phases : List.Forall₂ (PhaseMoved a b) g.phases g'.phases

theorem moved_redirect : Moved a b e (redirect a b e) :=
  ⟨rfl, rfl, rfl, rfl, rfl, redirect_untouched⟩

theorem phase_moved (ph : Phase) : PhaseMoved a b ph (ph.afterDeparture ⟨b, some a⟩) := by
  by_cases hb : b ∈ ph.nodeIds
  · refine ⟨?_, ?_, ?_, fun id => ?_, fun h => absurd hb h⟩
    · simp [Phase.afterDeparture, hb]
    · simp [Phase.afterDeparture, hb]
    · simp [Phase.afterDeparture, hb]
    rw [Phase.mem_afterDeparture hb]
    constructor
    · rintro (⟨hid, hne⟩ | hid)
      · exact ⟨id, hid, image_of_ne hne⟩
      · exact ⟨b, hb, (if_pos rfl).trans (Option.some.inj hid)⟩
    · rintro ⟨j, hj, rfl⟩
      by_cases hjb : j = b
      · exact .inr (congrArg some (if_pos hjb).symm)
      · rw [image_of_ne hjb]
        exact .inl ⟨hj, hjb⟩
  · have heq : ph.afterDeparture ⟨b, some a⟩ = ph := Phase.afterDeparture_of_not_mem hb
    refine ⟨by rw [heq], by rw [heq], by rw [heq], fun id => ?_, fun _ => heq⟩
    rw [heq]
    constructor
    · intro hid
      exact ⟨id, hid, image_of_ne fun h => hb (h ▸ hid)⟩
    · rintro ⟨j, hj, rfl⟩
      have hjb : j ≠ b := fun h => hb (h ▸ hj)
      rwa [image_of_ne hjb]

theorem connections_redirected {source target : String} :
    (∃ e ∈ (redirected a b es).edges, e.source = source ∧ e.target = target) ↔
      ∃ e ∈ es, image a b e.source = source ∧ image a b e.target = target ∧
        (e.touches b = true → source ≠ target) := by
  simp only [redirected, redirectAll_edges, List.mem_map]
  constructor
  · rintro ⟨_, ⟨e, he, rfl⟩, rfl, rfl⟩
    exact ⟨e, kept_sublist.subset he, rfl, rfl, fun ht => (kept_fresh he ht).1⟩
  · rintro ⟨e, he, rfl, rfl, hloop⟩
    -- An edge that touches `b` may be represented by another edge with its connection.
    suffices h : ∃ f ∈ kept a b ((es.filter (!·.touches b)).map connection) es,
        connection (redirect a b f) = connection (redirect a b e) by
      obtain ⟨f, hf, hc⟩ := h
      obtain ⟨hs, ht⟩ := Prod.mk.inj hc
      exact ⟨_, ⟨f, hf, rfl⟩, hs, ht⟩
    have stays : ∀ f ∈ es, f.touches b = false →
        f ∈ kept a b ((es.filter (!·.touches b)).map connection) es := by
      intro f hf hun
      have : f ∈ es.filter (!·.touches b) := by simp [hf, hun]
      rw [← kept_untouched (a := a)] at this
      exact List.mem_of_mem_filter this
    cases hun : e.touches b with
    | false => exact ⟨e, stays e he hun, rfl⟩
    | true =>
      rcases kept_covers he hun (hloop hun) with h | h
      · obtain ⟨f, hf, hc⟩ : ∃ f ∈ es.filter (!·.touches b),
            connection f = connection (redirect a b e) := List.mem_map.mp h
        obtain ⟨hf, hfun⟩ : f ∈ es ∧ f.touches b = false := by simpa using hf
        exact ⟨f, stays f hf hfun, by rw [redirect_untouched hfun, hc]⟩
      · exact h

theorem isQuotient_of_unchanged {l : Level} {r : Resolved} {phases : List Phase}
    (hab : r.target ≠ r.dropped) (hd : l.nodeIds.Nodup) (hu : unchanged l r.target r.targetData = true) :
    IsQuotient r.target r.dropped r.task r.sources { l with phases }
      { quotient r.target r.dropped r.task r.sources l with
        phases := phases.map (·.afterDeparture ⟨r.dropped, some r.target⟩) } where
  nodes := by
    obtain ⟨d, hdata, -⟩ := unchanged_iff.mp hu
    obtain ⟨n₀, hn₀, hd₀⟩ := Level.data?_eq_some.mp hdata
    have hforall : ∀ n ∈ l.nodes, (n.id ≠ r.target → takeOver r.target r.task r.sources n = n) ∧
        (n.id = r.target → ∃ d, n.data = some d ∧ takeOver r.target r.task r.sources n =
          { n with data := some { d with
            task := r.task, combined := some r.sources, combining := false } }) := by
      intro n hn
      refine ⟨fun hne => if_neg hne, fun heq => ⟨d, ?_, ?_⟩⟩
      all_goals
        have hsame : n = n₀ := Option.some.inj <|
          (Level.node?_of_mem hd hn).symm.trans (heq ▸ hn₀)
        subst hsame
      · exact hd₀
      · simp [takeOver, heq, Node.mapData, hd₀]
    rw [quotient, List.forall₂_map_right_iff, List.forall₂_same]
    exact fun n hn => hforall n (List.mem_of_mem_filter hn)
  edges := by
    refine ⟨kept r.target r.dropped ((l.edges.filter (!·.touches r.dropped)).map connection)
      l.edges, kept_sublist, kept_untouched, ?_, kept_pairwise fun e he hun => ?_⟩
    · simp only [quotient, redirected, redirectAll_edges]
      rw [List.forall₂_map_right_iff, List.forall₂_same]
      exact fun e _ => moved_redirect
    · rw [redirect_untouched hun]
      exact List.mem_map_of_mem (by simp [he, hun])
  free := by
    intro e he
    simp only [quotient, redirected, redirectAll_edges, List.mem_map] at he
    obtain ⟨e, -, rfl⟩ := he
    have hs : (redirect r.target r.dropped e).source ≠ r.dropped := image_ne hab
    have ht : (redirect r.target r.dropped e).target ≠ r.dropped := image_ne hab
    simp [Edge.touches, hs, ht]
  connections _ _ := connections_redirected
  phases := by
    rw [List.forall₂_map_right_iff, List.forall₂_same]
    exact fun ph _ => phase_moved ph

/-- A commit of `b` onto `a` leaves the quotient of the graph by `b = a`, which is valid, and
reports how many edges were lost. -/
theorem commit_quotient {σ : Type} {append : Task → σ → Except StoreError Bool × σ} {l₀ : Level}
    {r : Resolved} {g g' : Graph} {s s' : σ} {o : Outcome}
    (hb : (start a b l₀).result = .ok r.toPending) (hv : g.validate = .ok ())
    (h : g.edit (commit append r s) = ((.ok o, s'), g')) :
    IsQuotient a b r.task r.sources g g' ∧ o.droppedEdges + g'.edges.length = g.edges.length ∧
      g'.validate = .ok () := by
  have hbegun := start_ok.mp hb
  obtain rfl := hbegun.target
  obtain rfl := hbegun.dropped
  obtain ⟨hstage, -, -, ho⟩ := commit_ok (edit_eq h).1
  obtain ⟨hu, -, -, hvalid⟩ := stage_ok.mp hstage
  obtain ⟨-, hlevel, -⟩ := edit_eq h
  obtain ⟨-, -, hg⟩ := edit_commit_ok h
  have hq : IsQuotient r.target r.dropped r.task r.sources g g' :=
    hg ▸ isQuotient_of_unchanged hbegun.ne (Level.validate_ok.mp hv).here.ids hu
  refine ⟨hq, ?_, hlevel ▸ hvalid⟩
  rw [ho, hg]
  exact redirectAll_counts

/-- Two loops and a repeated connection are lost, and the loop of `a` stays. -/
theorem commit_quotient_sample :
    (start "a" "b" sample.toLevel).result = .ok sampleMerge.toPending ∧
      sample.validate = .ok () ∧
      ∃ o s' g', sample.edit (commit MemoryStore.put sampleMerge {}) = ((.ok o, s'), g') ∧
        IsQuotient "a" "b" sampleMerge.task sampleMerge.sources sample g' ∧
        o.droppedEdges = 3 ∧ g'.edges.map (·.id) = ["4", "5", "6"] := by
  have hb : (start "a" "b" sample.toLevel).result = .ok sampleMerge.toPending := rfl
  have hv : sample.validate = .ok () := rfl
  exact ⟨hb, hv, _, _, _, rfl,
    (commit_quotient hb hv (rfl : sample.edit (commit MemoryStore.put sampleMerge {}) = _)).1,
    rfl, rfl⟩

end Workflow.Merge

import Workflow.Navigator
import Workflow.Proofs.Graph.Valid

/-!
# Where paths lead

A path is followed in three ways: to look at a level, to edit it, and to name the levels on the way.
`Level.Reaches` and `Level.Stuck` say where a path leads and which of its steps cannot be taken;
each way of following a path is characterised by them, and so all three agree.
-/

namespace Workflow

variable {α : Type} {f : Level → Edited α} {a : α} {l l' m sub : Level} {n : Node} {depth : Nat}
variable {id : String} {path rest : Path} {e : PathError} {trail : List Crumb}

namespace Level

/-- A path leads from a level to one inside it. Each step goes through the first node of its id. -/
inductive Reaches : Level → Path → Level → Prop
  | here {l : Level} : Reaches l [] l
  | down {l sub m : Level} {n : Node} {id : String} {path : Path} (hn : l.node? id = some n)
      (hs : n.subflow = some sub) (h : Reaches sub path m) : Reaches l (id :: path) m

/-- Why step number `depth` of a path cannot be taken on a level. -/
inductive Blocks (l : Level) (depth : Nat) (id : String) : PathError → Prop
  | missing (hn : l.node? id = none) : Blocks l depth id (.nodeNotFound depth id)
  | closed {n : Node} (hn : l.node? id = some n) (hs : n.subflow = none) :
      Blocks l depth id (.noSubflow depth id)

/-- A path whose first step has number `depth` has a step that cannot be taken, and `e` is about
the first one. -/
def Stuck (depth : Nat) (l : Level) (path : Path) (e : PathError) : Prop :=
  ∃ taken id rest m, path = taken ++ id :: rest ∧ l.Reaches taken m ∧
    m.Blocks (depth + taken.length) id e

theorem Reaches.of_append (h : l.Reaches (path ++ rest) l') :
    ∃ m, l.Reaches path m ∧ m.Reaches rest l' := by
  induction path generalizing l with
  | nil => exact ⟨l, .here, h⟩
  | cons id path ih =>
    cases h with
    | down hn hs h =>
      obtain ⟨m, hm, hrest⟩ := ih h
      exact ⟨m, .down hn hs hm, hrest⟩

theorem Stuck.down (hn : l.node? id = some n) (hs : n.subflow = some sub)
    (h : sub.Stuck (depth + 1) path e) : l.Stuck depth (id :: path) e := by
  obtain ⟨taken, j, rest, m, rfl, hm, hb⟩ := h
  refine ⟨id :: taken, j, rest, m, rfl, .down hn hs hm, ?_⟩
  rwa [List.length_cons, Nat.add_comm taken.length, ← Nat.add_assoc]

/-- What holds of a path that gets stuck, by the step at which it does. -/
theorem Stuck.cases {P : Nat → Level → Path → PathError → Prop} (h : l.Stuck depth path e)
    (now : ∀ {depth l id rest e}, l.Blocks depth id e → P depth l (id :: rest) e)
    (later : ∀ {depth l n sub id path e}, l.node? id = some n → n.subflow = some sub →
      P (depth + 1) sub path e → P depth l (id :: path) e) : P depth l path e := by
  obtain ⟨taken, id, rest, m, rfl, hm, hb⟩ := h
  induction hm generalizing depth with
  | here => exact now hb
  | @down l sub m n j taken hn hs _ ih =>
    refine later hn hs (ih ?_)
    rwa [List.length_cons, Nat.add_comm taken.length, ← Nat.add_assoc] at hb

theorem reaches_or_stuck (depth : Nat) (l : Level) (path : Path) :
    (∃ m, l.Reaches path m) ∨ ∃ e, l.Stuck depth path e := by
  induction path generalizing depth l with
  | nil => exact .inl ⟨l, .here⟩
  | cons id path ih =>
    cases hn : l.node? id with
    | none => exact .inr ⟨_, [], id, path, l, rfl, .here, .missing hn⟩
    | some n =>
      cases hs : n.subflow with
      | none => exact .inr ⟨_, [], id, path, l, rfl, .here, .closed hn hs⟩
      | some sub =>
        rcases ih (depth + 1) sub with ⟨m, hm⟩ | ⟨e, he⟩
        · exact .inl ⟨m, .down hn hs hm⟩
        · exact .inr ⟨e, he.down hn hs⟩

-- ---------------------------------------------------------------------------
-- Looking at the level
-- ---------------------------------------------------------------------------

theorem enter_ok : l.enter depth id = .ok sub ↔
    ∃ n, l.node? id = some n ∧ n.subflow = some sub := by
  unfold enter
  cases l.node? id with
  | none => simp
  | some n => cases hs : n.subflow <;> simp [hs]

theorem Blocks.enter (h : l.Blocks depth id e) : l.enter depth id = .error e := by
  cases h with
  | missing hn => simp [Level.enter, hn]
  | closed hn hs => simp [Level.enter, hn, hs]

theorem Reaches.resolve (h : l.Reaches path m) : l.resolve depth path = .ok m := by
  induction h generalizing depth with
  | here => rfl
  | down hn hs _ ih => exact bind_ok.mpr ⟨_, enter_ok.mpr ⟨_, hn, hs⟩, ih⟩

theorem Stuck.resolve (h : l.Stuck depth path e) : l.resolve depth path = .error e := by
  refine h.cases (P := fun depth l path e => l.resolve depth path = .error e) ?_ ?_
  · intro depth l id rest e hb
    simp [Level.resolve, hb.enter, bind, Except.bind]
  · intro depth l n sub id path e hn hs ih
    simp [Level.resolve, enter_ok.mpr ⟨n, hn, hs⟩, ih, bind, Except.bind]

theorem resolve_ok : l.resolve depth path = .ok m ↔ l.Reaches path m := by
  refine ⟨fun h => ?_, Reaches.resolve⟩
  rcases reaches_or_stuck depth l path with ⟨m', hm⟩ | ⟨e, he⟩
  · rw [hm.resolve] at h
    cases h
    exact hm
  · rw [he.resolve] at h
    cases h

-- ---------------------------------------------------------------------------
-- Editing the level
-- ---------------------------------------------------------------------------

/-- `l` with the level at a path replaced. -/
def replaceAt (l : Level) : Path → (new : Level) → Level
  | [], new => new
  | id :: path, new =>
    l.mapNode id (·.mapData fun d =>
      { d with subflow := d.subflow.map fun sub => sub.replaceAt path new })

theorem mapFirst_congr {ns : List Node} {g h : Node → Node}
    (hgh : ∀ n, ns.find? (·.id == id) = some n → g n = h n) :
    mapFirst id g ns = mapFirst id h ns := by
  induction ns with
  | nil => rfl
  | cons n ns ih =>
    simp only [mapFirst]
    split
    · rename_i hid
      rw [hgh n (by simp [hid])]
    · rename_i hid
      rw [ih fun m hm => hgh m (by simpa [List.find?_cons, hid] using hm)]

theorem replaceAt_cons {new : Level} (hn : l.node? id = some n) (hs : n.subflow = some sub) :
    l.replaceAt (id :: path) new =
      l.mapNode id (·.setSubflow (sub.replaceAt path new)) := by
  simp only [replaceAt, mapNode]
  congr 1
  refine mapFirst_congr fun m hm => ?_
  cases hn.symm.trans hm
  exact Node.mapData_subflow hs

/-- What holds everywhere holds everywhere after a replacement, if it survives the replacement of
the subflow of one node. -/
theorem Everywhere.replaceAt {P : Level → Prop} {new : Level} (hl : l.Everywhere P)
    (hP : ∀ {l sub : Level} {id : String}, l.Everywhere P → sub.Everywhere P →
      (l.mapNode id (·.setSubflow sub)).Everywhere P)
    (hnew : new.Everywhere P) (h : l.Reaches path m) : (l.replaceAt path new).Everywhere P := by
  induction h with
  | here => exact hnew
  | down hn hs _ ih =>
    rw [replaceAt_cons hn hs]
    exact hP hl (ih (hl.inside (node?_mem hn).1 hs))

theorem Everywhere.of_reaches {P : Level → Prop} (hl : l.Everywhere P) (h : l.Reaches path m) :
    m.Everywhere P := by
  induction h with
  | here => exact hl
  | down hn hs _ ih => exact ih (hl.inside (node?_mem hn).1 hs)

/-- Where a path leads to a level, the edit at its end is an edit of that level in its place. -/
theorem Reaches.editAt (h : l.Reaches path m) (f : Level → Edited α) (depth : Nat) :
    l.editAt f depth path = .ok ((f m).result, l.replaceAt path (f m).level) := by
  induction h generalizing depth with
  | here => rfl
  | @down l sub m n id path hn hs _ ih =>
    simp only [Level.editAt, hn, Option.bind_some, hs, ih, replaceAt_cons hn hs]
    rfl

theorem editAt_ok (h : l.editAt f depth path = .ok (a, l')) :
    ∃ m, l.Reaches path m ∧ a = (f m).result ∧ l' = l.replaceAt path (f m).level := by
  have hm : ∃ m, l.Reaches path m := by
    induction path generalizing l depth a l' with
    | nil => exact ⟨l, .here⟩
    | cons id path ih =>
      simp only [editAt] at h
      split at h
      · cases h
      · rename_i sub hsub
        obtain ⟨n, hn, hs⟩ := Option.bind_eq_some_iff.mp hsub
        obtain ⟨⟨b, sub'⟩, hedit, -⟩ := bind_ok.mp h
        obtain ⟨m, hm⟩ := ih hedit
        exact ⟨m, .down hn hs hm⟩
  obtain ⟨m, hm⟩ := hm
  rw [hm.editAt] at h
  cases h
  exact ⟨m, hm, rfl, rfl⟩

-- ---------------------------------------------------------------------------
-- Naming the levels on the way
-- ---------------------------------------------------------------------------

/-- The entries of a path: their ids spell it, and each has the name of the node it goes through. -/
structure Trail (l : Level) (path : Path) (trail : List Crumb) : Prop where
  ids : trail.map (·.id) = path
  names : ∀ taken id rest m n, path = taken ++ id :: rest → l.Reaches taken m →
    m.node? id = some n → (trail[taken.length]?).map (·.name) = some n.displayName

theorem Trail.nil : l.Trail [] [] where
  ids := rfl
  names taken id rest m n h := by simp at h

theorem Trail.cons (hn : l.node? id = some n) (hs : n.subflow = some sub)
    (h : sub.Trail path trail) : l.Trail (id :: path) (⟨n.id, n.displayName⟩ :: trail) where
  ids := by rw [List.map_cons, h.ids, (node?_mem hn).2]
  names taken j rest m n' heq hm hn' := by
    cases hm with
    | here =>
      simp only [List.nil_append, List.cons.injEq] at heq
      obtain ⟨rfl, rfl⟩ := heq
      cases hn.symm.trans hn'
      rfl
    | down hk hsub hm =>
      simp only [List.cons_append, List.cons.injEq] at heq
      obtain ⟨rfl, rfl⟩ := heq
      cases hn.symm.trans hk
      cases hs.symm.trans hsub
      simpa using h.names _ _ _ _ _ rfl hm hn'

theorem Reaches.crumbs (h : l.Reaches path m) (depth : Nat) :
    ∃ trail, l.crumbs depth path = .ok trail ∧ l.Trail path trail := by
  induction h generalizing depth with
  | here => exact ⟨[], rfl, .nil⟩
  | @down l sub m n id path hn hs _ ih =>
    obtain ⟨trail, htrail, ht⟩ := ih (depth + 1)
    refine ⟨_, ?_, ht.cons hn hs⟩
    simp only [Level.crumbs, hn, hs, htrail]
    rfl

theorem Stuck.crumbs (h : l.Stuck depth path e) : l.crumbs depth path = .error e := by
  refine h.cases (P := fun depth l path e => l.crumbs depth path = .error e) ?_ ?_
  · intro depth l id rest e hb
    cases hb with
    | missing hn => simp [Level.crumbs, hn]
    | closed hn hs => simp [Level.crumbs, hn, hs]
  · intro depth l n sub id path e hn hs ih
    simp [Level.crumbs, hn, hs, ih, bind, Except.bind]

end Level

-- ---------------------------------------------------------------------------
-- Graphs
-- ---------------------------------------------------------------------------

namespace Graph

variable {g : Graph}

theorem levelAt_ok : g.levelAt path = .ok m ↔ g.toLevel.Reaches path m := Level.resolve_ok

theorem editAt_root (f : Level → Edited α) : g.editAt f [] = .ok (g.edit f) := rfl

theorem editAt_inside (h : g.toLevel.Reaches (id :: path) m) (f : Level → Edited α) :
    g.editAt f (id :: path) =
      .ok ((f m).result, { g with toLevel := g.toLevel.replaceAt (id :: path) (f m).level }) := by
  simp only [editAt, levelAt_ok.mpr h, h.editAt]
  rfl

theorem editAt_of_reaches (h : g.toLevel.Reaches path m) (f : Level → Edited α) :
    ∃ g', g.editAt f path = .ok ((f m).result, g') := by
  cases path with
  | nil =>
    cases h
    exact ⟨_, editAt_root f⟩
  | cons id path => exact ⟨_, editAt_inside h f⟩

theorem editAt_ok {g' : Graph} (h : g.editAt f path = .ok (a, g')) : ∃ m,
    g.toLevel.Reaches path m ∧ a = (f m).result ∧
      g'.toLevel = g.toLevel.replaceAt path (f m).level := by
  cases path with
  | nil =>
    cases h
    exact ⟨_, .here, rfl, rfl⟩
  | cons id path =>
    simp only [editAt, bind_ok] at h
    obtain ⟨_, -, ⟨x, root⟩, hedit, h⟩ := h
    cases h
    exact Level.editAt_ok hedit

theorem editAt_of_stuck (h : g.toLevel.Stuck 0 path e) (f : Level → Edited α) :
    g.editAt f path = .error e := by
  simp only [editAt, levelAt, h.resolve]
  rfl

/-- The three ways of following a path agree. Either it leads to a level: then all of them succeed,
an edit gets the very level that is shown, its own descent cannot fail, the trail names the root and
every step, and all beginnings of the path lead somewhere. Or all of them fail with the error about
the first step that cannot be taken. -/
theorem resolvers_agree (g : Graph) (path : Path) (rootLabel : String) :
    (∃ l trail, g.toLevel.Reaches path l ∧ g.levelAt path = .ok l ∧
      (∀ {α : Type} (f : Level → Edited α), ∃ g', g.editAt f path = .ok ((f l).result, g')) ∧
      (∀ {α : Type} (f : Level → Edited α), (g.toLevel.editAt f 0 path).isOk) ∧
      g.trail rootLabel path = .ok (⟨rootCrumbId, rootLabel⟩ :: trail) ∧
      g.toLevel.Trail path trail ∧
      ∀ taken rest, path = taken ++ rest → ∃ m, g.levelAt taken = .ok m) ∨
    ∃ e, g.toLevel.Stuck 0 path e ∧ g.levelAt path = .error e ∧
      (∀ {α : Type} (f : Level → Edited α), g.editAt f path = .error e) ∧
      g.trail rootLabel path = .error e := by
  rcases Level.reaches_or_stuck 0 g.toLevel path with ⟨l, hl⟩ | ⟨e, he⟩
  · obtain ⟨trail, htrail, ht⟩ := hl.crumbs 0
    refine .inl ⟨l, trail, hl, levelAt_ok.mpr hl, editAt_of_reaches hl, ?_, ?_, ht, ?_⟩
    · intro α f
      rw [hl.editAt]
      rfl
    · simp only [Graph.trail, htrail]
      rfl
    · rintro taken rest rfl
      obtain ⟨m, hm, -⟩ := hl.of_append
      exact ⟨m, levelAt_ok.mpr hm⟩
  · refine .inr ⟨e, he, he.resolve, editAt_of_stuck he, ?_⟩
    simp only [Graph.trail, he.crumbs]
    rfl

end Graph

end Workflow

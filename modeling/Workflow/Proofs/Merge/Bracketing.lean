import Workflow.Proofs.Merge.Composite
import Workflow.Proofs.Merge.Contraction

/-!
# The grouping of merges does not matter

A row of nodes is merged into its first node, one whole merge after the other, each of a block of
neighbours onto the block to its left. Whichever blocks are merged first, the end is the same up to
the id of the composite task.
-/

namespace Workflow

def Level.task? (l : Level) (id : String) : Option Task := (l.data? id).map (·.task)

/-- The tasks that the nodes of the ids carry. -/
def Level.tasksOf (l : Level) (ids : List String) : List Task := ids.filterMap l.task?

/-- The nodes of the ids carry tasks, none of which comes from a merge. -/
def Level.Plain (l : Level) (ids : List String) : Prop :=
  ∀ id ∈ ids, ∃ d, l.data? id = some d ∧ d.combined = none

theorem Level.Plain.map_task? {l : Level} {ids : List String} (h : l.Plain ids) :
    ids.map l.task? = (l.tasksOf ids).map some := by
  induction ids with
  | nil => rfl
  | cons id ids ih =>
    obtain ⟨d, hd, -⟩ := h id List.mem_cons_self
    have ih := ih fun j hj => h j (List.mem_cons_of_mem id hj)
    have ht : l.task? id = some d.task := by rw [task?, hd]; rfl
    rw [List.map_cons, ih, ht, tasksOf, tasksOf, List.filterMap_cons_some ht, List.map_cons]

namespace Merge

/-- A whole merge of `b` onto `a` without a namer succeeds, with whatever store and clock. -/
def Joins (cfg : Config) (a b : String) (l l' : Level) : Prop :=
  ∃ (σ : Type) (c : Setting σ) (tokens : TokenSupply) (s : σ) (o : Outcome),
    c.config = cfg ∧ c.namer = noNamer ∧ (combine c a b tokens s l).result.1 = .ok (.done o) ∧
      (combine c a b tokens s l).level = l'

/-- A row of nodes on `l` in blocks, each of which has been merged into its first node. -/
inductive Bracketing (cfg : Config) (ids : List String) (l : Level) :
    List (List String) → Level → Prop
  | apart : Bracketing cfg ids l (ids.map fun id => [id]) l
  | join {before after : List (List String)} {a b : String} {as bs : List String} {l₁ l₂ : Level} :
    Bracketing cfg ids l (before ++ (a :: as) :: (b :: bs) :: after) l₁ → Joins cfg a b l₁ l₂ →
      Bracketing cfg ids l (before ++ (a :: as ++ b :: bs) :: after) l₂

variable {cfg : Config} {l l' l₁ l₂ : Level} {a b c j : String} {as bs cs ids : List String}
variable {blocks before after : List (List String)} {x y : TaskData} {t : Task} {ts us : List Task}
variable {f g : String → String}

theorem Joins.quotient (h : Joins cfg a b l l') (hx : l.data? a = some x) (hy : l.data? b = some y)
    (rx : Represents x ts) (ry : Represents y us) :
    a ≠ b ∧ ∃ id, l' = quotient a b (composite cfg id (ts ++ us)) (ts ++ us) l := by
  obtain ⟨σ, c, tokens, s, o, rfl, hnamer, hdone, rfl⟩ := h
  rcases combine_cases c a b tokens s l with ⟨r, -, -, hbegun, hr, hstage, -⟩ | ⟨hnot, -⟩
  · obtain ⟨-, -, hlevel, -⟩ := stage_ok.mp hstage
    obtain rfl : r.targetData = x := Option.some.inj (hbegun.targetData.symm.trans hx)
    obtain rfl : r.droppedData = y := Option.some.inj (hbegun.droppedData.symm.trans hy)
    have hsources : r.sources = ts ++ us := by rw [hbegun.sources_eq, rx.sources, ry.sources]
    have hconfig : r.config = jointConfig (ts ++ us) := by
      rw [hbegun.config, hsources, rx.config ry]
    rw [hnamer, resolve_noNamer] at hr
    have htask : r.task = composite c.config tokens.freshTaskId.1 (ts ++ us) := by
      rw [hr, task, hconfig, hsources]
      rfl
    refine ⟨hbegun.ne, tokens.freshTaskId.1, ?_⟩
    rw [hlevel, hbegun.target, hbegun.dropped, htask, hsources]
  · exact absurd hdone (hnot o)

-- ---------------------------------------------------------------------------
-- Blocks of neighbours
-- ---------------------------------------------------------------------------

theorem mem_join : ids ∈ before ++ (a :: as ++ b :: bs) :: after ↔
    (ids ∈ before ∨ ids ∈ after) ∨ ids = a :: as ++ b :: bs := by
  simp only [List.mem_append, List.mem_cons]
  tauto

theorem mem_apart (h : ids ∈ before ∨ ids ∈ after) :
    ids ∈ before ++ (a :: as) :: (b :: bs) :: after := by
  simp only [List.mem_append, List.mem_cons]
  tauto

theorem flatten_join : (before ++ (a :: as ++ b :: bs) :: after).flatten =
    (before ++ (a :: as) :: (b :: bs) :: after).flatten := by
  simp

theorem not_mem_neighbours (hd : (before ++ (a :: as) :: (b :: bs) :: after).flatten.Nodup)
    (hc : ids ∈ before ∨ ids ∈ after) (hj : j ∈ ids) : j ∉ a :: as ∧ j ∉ b :: bs := by
  obtain ⟨-, hd⟩ := List.nodup_flatten.mp hd
  obtain ⟨-, hrest, hbefore⟩ := List.pairwise_append.mp hd
  obtain ⟨ha, hrest⟩ := List.pairwise_cons.mp hrest
  obtain ⟨hb, -⟩ := List.pairwise_cons.mp hrest
  rcases hc with hc | hc
  · exact ⟨hbefore _ hc _ (by simp) hj, hbefore _ hc _ (by simp) hj⟩
  · exact ⟨fun h => ha _ (by simp [hc]) h hj, fun h => hb _ hc h hj⟩

/-- `f` leads the nodes of each block to its first node and leaves all others alone. -/
structure Leads (f : String → String) (blocks : List (List String)) : Prop where
  inside : ∀ a as, a :: as ∈ blocks → ∀ j ∈ a :: as, f j = a
  outside : ∀ j ∉ blocks.flatten, f j = j

theorem Leads.apart (ids : List String) : Leads id (ids.map fun j => [j]) where
  inside a as h j hj := by
    obtain ⟨k, -, hk⟩ := List.mem_map.mp h
    cases hk
    exact List.mem_singleton.mp hj
  outside j _ := rfl

theorem Leads.join (h : Leads f (before ++ (a :: as) :: (b :: bs) :: after)) (hab : a ≠ b)
    (hd : (before ++ (a :: as) :: (b :: bs) :: after).flatten.Nodup) :
    Leads (image a b ∘ f) (before ++ (a :: as ++ b :: bs) :: after) where
  inside c cs hmem j hj := by
    rcases mem_join.mp hmem with hc | hc
    · have hcb : c ≠ b := by
        rintro rfl
        exact (not_mem_neighbours hd hc List.mem_cons_self).2 List.mem_cons_self
      rw [Function.comp, h.inside c cs (mem_apart hc) j hj, image_of_ne hcb]
    · rw [hc] at hj
      obtain ⟨rfl, -⟩ := List.cons.inj hc
      rcases List.mem_append.mp hj with hj | hj
      · rw [Function.comp, h.inside c as (by simp) j hj, image_of_ne hab]
      · rw [Function.comp, h.inside b bs (by simp) j hj, image, if_pos rfl]
  outside j hj := by
    rw [flatten_join] at hj
    have hjb : j ≠ b := by
      rintro rfl
      exact hj (by simp)
    rw [Function.comp, h.outside j hj, image_of_ne hjb]

theorem Leads.unique (hf : Leads f [a :: as]) (hg : Leads g [a :: as]) : f = g := by
  funext j
  by_cases hj : j ∈ a :: as
  · rw [hf.inside a as List.mem_cons_self j hj, hg.inside a as List.mem_cons_self j hj]
  · have hj : j ∉ [a :: as].flatten := by simpa using hj
    rw [hf.outside j hj, hg.outside j hj]

-- ---------------------------------------------------------------------------
-- What the first node of a block carries
-- ---------------------------------------------------------------------------

/-- The first node of a block carries in `l'` what all nodes of the block carry in `l`. -/
def Carries (cfg : Config) (l l' : Level) : List String → Prop
  | [] => True
  | [a] => l'.node? a = l.node? a
  | a :: as => ∃ id,
    l'.node? a = (l.node? a).map (·.mapData (merged cfg id (l.tasksOf (a :: as))))

theorem Carries.represents (h : Carries cfg l l' (a :: as)) (hl : l.Plain (a :: as)) :
    ∃ x, l'.data? a = some x ∧ Represents x (l.tasksOf (a :: as)) := by
  obtain ⟨d, hd, hplain⟩ := hl a List.mem_cons_self
  have htasks : l.tasksOf (a :: as) = d.task :: l.tasksOf as := by
    simp [Level.tasksOf, Level.task?, hd]
  cases as with
  | nil =>
    refine ⟨d, ?_, htasks ▸ represents_plain hplain⟩
    rw [Level.data?, show l'.node? a = l.node? a from h]
    exact hd
  | cons a' as =>
    obtain ⟨id, h⟩ := h
    refine ⟨merged cfg id (l.tasksOf (a :: a' :: as)) d, ?_, represents_merged ?_⟩
    · obtain ⟨n, hn, hnd⟩ := Level.data?_eq_some.mp hd
      exact Level.data?_eq_some.mpr ⟨_, by rw [h, hn]; rfl, by simp [hnd]⟩
    · rw [htasks]
      exact List.cons_ne_nil _ _

theorem Carries.of_eq (h : Carries cfg l l₁ (c :: cs)) (heq : l₂.node? c = l₁.node? c) :
    Carries cfg l l₂ (c :: cs) := by
  cases cs with
  | nil => exact heq.trans h
  | cons c' cs =>
    obtain ⟨id, h⟩ := h
    exact ⟨id, heq.trans h⟩

theorem Carries.several (h : Carries cfg l l' (a :: as)) (hne : as ≠ []) : ∃ id,
    l'.node? a = (l.node? a).map (·.mapData (merged cfg id (l.tasksOf (a :: as)))) := by
  cases as with
  | nil => exact absurd rfl hne
  | cons a' as => exact h

/-- A further merge covers what was merged into the node before. -/
theorem Carries.covered {id : String} (h : Carries cfg l l' (a :: as)) :
    (l'.node? a).map (·.mapData (merged cfg id ts)) =
      (l.node? a).map (·.mapData (merged cfg id ts)) := by
  cases as with
  | nil => rw [show l'.node? a = l.node? a from h]
  | cons a' as =>
    obtain ⟨id', h⟩ := h
    rw [h, Option.map_map]
    congr 1
    funext n
    obtain ⟨_, _, _, _, _ | d⟩ := n <;> rfl

theorem Carries.join {id : String} (h : Carries cfg l l' (a :: as)) (hab : a ≠ b)
    (hts : ts = l.tasksOf (a :: as ++ b :: bs)) :
    Carries cfg l (quotient a b (composite cfg id ts) ts l') (a :: as ++ b :: bs) := by
  have hnode : (quotient a b (composite cfg id ts) ts l').node? a =
      (l.node? a).map (·.mapData (merged cfg id ts)) := by
    rw [node?_quotient, if_neg hab, if_pos rfl]
    exact h.covered
  rw [hts] at hnode ⊢
  cases as with
  | nil => exact ⟨id, hnode⟩
  | cons a' as => exact ⟨id, hnode⟩

-- ---------------------------------------------------------------------------
-- Along a bracketing
-- ---------------------------------------------------------------------------

/-- What is left of a level once the blocks of a row are merged. -/
structure Bracketed (cfg : Config) (ids : List String) (l : Level) (blocks : List (List String))
    (l' : Level) : Prop where
  row : blocks.flatten = ids
  carries : ∀ a as, a :: as ∈ blocks → Carries cfg l l' (a :: as)
  others : ∀ j ∉ ids, l'.node? j = l.node? j
  contracts : ∃ f, Leads f blocks ∧ Contracts f l l'

theorem Bracketed.apart : Bracketed cfg ids l (ids.map fun id => [id]) l where
  row := by simp [← List.flatMap_def]
  carries a as h := by
    obtain ⟨k, -, hk⟩ := List.mem_map.mp h
    cases hk
    rfl
  others j _ := rfl
  contracts := ⟨id, .apart ids, .refl l⟩

theorem Bracketed.join (h : Bracketed cfg ids l (before ++ (a :: as) :: (b :: bs) :: after) l₁)
    (hd : ids.Nodup) (hl : l.Plain ids) (hj : Joins cfg a b l₁ l₂) :
    Bracketed cfg ids l (before ++ (a :: as ++ b :: bs) :: after) l₂ := by
  obtain ⟨rfl, hcarries, hothers, f, hleads, hcontracts⟩ := h
  have plain : ∀ block ∈ before ++ (a :: as) :: (b :: bs) :: after, l.Plain block :=
    fun block hblock id hid => hl id (List.mem_flatten_of_mem hblock hid)
  have ha := hcarries a as (by simp)
  have hb := hcarries b bs (by simp)
  obtain ⟨x, hx, rx⟩ := ha.represents (plain _ (by simp))
  obtain ⟨y, hy, ry⟩ := hb.represents (plain _ (by simp))
  -- Each of the two nodes stands for its block, so the merge stands for both blocks in their order.
  obtain ⟨hab, id, rfl⟩ := hj.quotient hx hy rx ry
  refine ⟨flatten_join, ?_, ?_, image a b ∘ f, hleads.join hab hd, ?_⟩
  · intro c cs hmem
    rcases mem_join.mp hmem with hc | hc
    · have hnot := not_mem_neighbours hd hc (List.mem_cons_self (a := c) (l := cs))
      refine (hcarries c cs (mem_apart hc)).of_eq ?_
      rw [node?_quotient, if_neg (List.ne_of_not_mem_cons hnot.2),
        if_neg (List.ne_of_not_mem_cons hnot.1)]
    · rw [hc]
      exact ha.join hab List.filterMap_append.symm
  · intro j hj
    have hja : j ≠ a := by
      rintro rfl
      exact hj (by simp)
    have hjb : j ≠ b := by
      rintro rfl
      exact hj (by simp)
    rw [node?_quotient, if_neg hjb, if_neg hja, hothers j hj]
  · refine hcontracts.quotient ?_ ?_ hab
    · exact hleads.inside a as (by simp) a List.mem_cons_self
    · exact hleads.inside b bs (by simp) b List.mem_cons_self

theorem Bracketing.bracketed (h : Bracketing cfg ids l blocks l') (hd : ids.Nodup)
    (hl : l.Plain ids) : Bracketed cfg ids l blocks l' := by
  induction h with
  | apart => exact .apart
  | join _ hj ih => exact ih.join hd hl hj

/-- A row of plain nodes, merged in two groupings without a namer: the first node has taken over all
tasks of the row in their order, and only the id of its own task may differ. -/
theorem bracketings_agree (hne : as ≠ []) (hd : (a :: as).Nodup) (hl : l.Plain (a :: as))
    (h₁ : Bracketing cfg (a :: as) l [a :: as] l₁) (h₂ : Bracketing cfg (a :: as) l [a :: as] l₂) :
    (∃ n d ts id₁ id₂, l.node? a = some n ∧ n.data = some d ∧ (a :: as).map l.task? = ts.map some ∧
      l₁.node? a = some { n with data := some (merged cfg id₁ ts d) } ∧
      l₂.node? a = some { n with data := some (merged cfg id₂ ts d) }) ∧
    (∀ j ≠ a, l₁.node? j = l₂.node? j) ∧ l₁.nodeIds = l₂.nodeIds ∧
      ∀ u v, l₁.Connects u v ↔ l₂.Connects u v := by
  obtain ⟨-, hcarries₁, hothers₁, f, hf, hcontracts₁⟩ := h₁.bracketed hd hl
  obtain ⟨-, hcarries₂, hothers₂, g, hg, hcontracts₂⟩ := h₂.bracketed hd hl
  obtain rfl := hf.unique hg
  have hids : l₁.nodeIds = l₂.nodeIds := by rw [hcontracts₁.nodeIds, hcontracts₂.nodeIds]
  refine ⟨?_, ?_, hids, ?_⟩
  · obtain ⟨d, hdata, -⟩ := hl a List.mem_cons_self
    obtain ⟨n, hn, hnd⟩ := Level.data?_eq_some.mp hdata
    obtain ⟨id₁, hnode₁⟩ := (hcarries₁ a as List.mem_cons_self).several hne
    obtain ⟨id₂, hnode₂⟩ := (hcarries₂ a as List.mem_cons_self).several hne
    rw [hn, Option.map_some, Node.mapData, hnd] at hnode₁ hnode₂
    exact ⟨n, d, _, id₁, id₂, hn, hnd, hl.map_task?, hnode₁, hnode₂⟩
  · intro j hj
    by_cases hrow : j ∈ as
    · have hgone : j ∉ l₁.nodeIds := by
        rw [hcontracts₁.nodeIds, List.mem_filter, decide_eq_true_eq]
        rintro ⟨-, hfix⟩
        rw [hf.inside a as List.mem_cons_self j (List.mem_cons_of_mem a hrow)] at hfix
        exact hj hfix.symm
      rw [Level.node?_eq_none.mpr hgone, Level.node?_eq_none.mpr (hids ▸ hgone)]
    · have hout : j ∉ a :: as := List.not_mem_cons_of_ne_of_not_mem hj hrow
      rw [hothers₁ j hout, hothers₂ j hout]
  · intro u v
    rw [hcontracts₁.connects, hcontracts₂.connects]

/-- Connections of three nodes with one another, with themselves and with a fourth one. -/
def rowSample : Level where
  nodes := [.ofTask "a" { id := "t1", name := "Alpha" } none,
    .ofTask "b" { id := "t2", name := "Beta" } none,
    .ofTask "c" { id := "t3", name := "Gamma", config := { model := some " m " } } none,
    { id := "d", kind := .output }]
  edges := [⟨"1", "a", "b", none, false⟩, ⟨"2", "b", "c", none, false⟩, ⟨"3", "c", "d", none, true⟩,
    ⟨"4", "a", "d", none, false⟩, ⟨"5", "b", "b", none, false⟩, ⟨"6", "d", "c", none, false⟩]

def rowJoined (a b : String) (l : Level) : Level :=
  (combine { append := MemoryStore.put } a b ⟨toString, 0⟩ {} l).level

theorem bracketings_agree_row :
    let l₁ := rowJoined "a" "c" (rowJoined "a" "b" rowSample)
    let l₂ := rowJoined "a" "b" (rowJoined "b" "c" rowSample)
    Bracketing {} ["a", "b", "c"] rowSample [["a", "b", "c"]] l₁ ∧
      Bracketing {} ["a", "b", "c"] rowSample [["a", "b", "c"]] l₂ ∧
      rowSample.Plain ["a", "b", "c"] ∧ l₁.nodeIds = ["a", "d"] ∧ l₂.nodeIds = ["a", "d"] ∧
      l₁.task? "a" = l₂.task? "a" ∧ ∀ u v, l₁.Connects u v ↔ l₂.Connects u v := by
  have joins : ∀ (a b : String) (l : Level) (o : Outcome),
      (combine { append := MemoryStore.put } a b ⟨toString, 0⟩ {} l).result.1 = .ok (.done o) →
        Joins {} a b l (rowJoined a b l) :=
    fun a b l o h => ⟨_, { append := MemoryStore.put }, _, _, o, rfl, rfl, h, rfl⟩
  have single : Bracketing {} ["a", "b", "c"] rowSample [["a"], ["b"], ["c"]] rowSample := .apart
  have h₁ : Bracketing {} ["a", "b", "c"] rowSample [["a", "b", "c"]]
      (rowJoined "a" "c" (rowJoined "a" "b" rowSample)) :=
    have hab := @Bracketing.join _ _ _ [] [["c"]] _ _ [] [] _ _ single (joins "a" "b" _ _ rfl)
    @Bracketing.join _ _ _ [] [] _ _ ["b"] [] _ _ hab (joins "a" "c" _ _ rfl)
  have h₂ : Bracketing {} ["a", "b", "c"] rowSample [["a", "b", "c"]]
      (rowJoined "a" "b" (rowJoined "b" "c" rowSample)) :=
    have hbc := @Bracketing.join _ _ _ [["a"]] [] _ _ [] [] _ _ single (joins "b" "c" _ _ rfl)
    @Bracketing.join _ _ _ [] [] _ _ [] ["c"] _ _ hbc (joins "a" "b" _ _ rfl)
  have hplain : rowSample.Plain ["a", "b", "c"] := by
    intro id hid
    simp only [List.mem_cons, List.not_mem_nil, or_false] at hid
    rcases hid with rfl | rfl | rfl <;> exact ⟨_, rfl, rfl⟩
  obtain ⟨-, -, hids, hconnects⟩ :=
    bracketings_agree (List.cons_ne_nil _ _) (by decide) hplain h₁ h₂
  exact ⟨h₁, h₂, hplain, rfl, hids ▸ rfl, rfl, hconnects⟩

end Merge

end Workflow

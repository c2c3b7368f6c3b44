import Workflow.Proofs.Merge.Quotient

/-!
# Merges that nothing disturbs

A commit compares both nodes with what the merge has taken down of them. A task equals itself unless
its temperature is not a number, so a merge that is begun, resolved and committed in one go succeeds
on every valid level, but for tasks with such a temperature: those count as changed.
-/

namespace Workflow

variable {l : Level} {a b id : String} {t : Task} {ts : List Task} {d x y : TaskData}

-- ---------------------------------------------------------------------------
-- Tasks that equal themselves
-- ---------------------------------------------------------------------------

/-- The temperature, if there is one, is a number; it may be infinite. -/
def Task.Numeric (t : Task) : Prop := ∀ x, t.config.temperature = some x → x.isNaN = false

/-- The task and the tasks that were merged into it have numbers as temperatures. -/
structure TaskData.Numeric (d : TaskData) : Prop where
  task : d.task.Numeric
  combined : ∀ ts, d.combined = some ts → ∀ t ∈ ts, t.Numeric

theorem beq_self_float (x : Float) : (x == x) = !x.isNaN := by
  change (x.toModel.unpack.compare x.toModel.unpack == some .eq) = !x.toModel.unpack.isNaN
  cases x.toModel.unpack with
  | notANumber => rfl
  | infinity s => cases s <;> rfl
  | zero s => cases s <;> rfl
  | finite s m e hm =>
    have hsame : (compare e e).then (compare m m) = .eq := by simp
    cases s with
    | positive => exact congrArg (some · == some .eq) hsame
    | negative => exact congrArg (some ·.swap == some .eq) hsame

theorem Task.beq_self_iff : (t == t) = true ↔ t.Numeric := by
  have htask : (t == t) = (t.id == t.id && (t.name == t.name && (t.description == t.description &&
      (t.icon == t.icon && (t.category == t.category && t.config == t.config))))) := rfl
  have hconfig : ∀ c : Task.Config, (c == c) = (c.model == c.model &&
      (c.temperature == c.temperature && (c.tools == c.tools &&
        (c.systemPrompt == c.systemPrompt && (c.agents == c.agents && c.rags == c.rags))))) :=
    fun _ => rfl
  rw [htask, hconfig]
  cases h : t.config.temperature <;> simp [Numeric, h, beq_self_float]

theorem Task.list_beq_self_iff : (ts == ts) = true ↔ ∀ t ∈ ts, t.Numeric := by
  induction ts with
  | nil => simp
  | cons t ts ih =>
    rw [List.cons_beq_cons, Bool.and_eq_true, beq_self_iff, ih, List.forall_mem_cons]

theorem TaskData.beq_self_iff :
    (d.task == d.task) = true ∧ (d.combined == d.combined) = true ↔ d.Numeric := by
  have hcombined : (d.combined == d.combined) = true ↔
      ∀ ts, d.combined = some ts → ∀ t ∈ ts, t.Numeric := by
    cases d.combined with
    | none => simp
    | some ts => simpa using Task.list_beq_self_iff
  rw [Task.beq_self_iff, hcombined]
  exact ⟨fun ⟨ht, hc⟩ => ⟨ht, hc⟩, fun ⟨ht, hc⟩ => ⟨ht, hc⟩⟩

namespace Merge

variable {σ : Type} {append : Task → σ → Except StoreError Bool × σ} {r : Resolved} {s s' : σ}
variable {e : MergeError} {added : Bool}

-- ---------------------------------------------------------------------------
-- The merged level is valid
-- ---------------------------------------------------------------------------

theorem takeOver_valid {n : Node} (h : n.Valid) : (takeOver a t ts n).Valid := by
  unfold takeOver
  split
  · obtain ⟨id, kind, position, label, data⟩ := n
    cases data with
    | none => exact h
    | some d => exact ⟨fun _ => rfl, h.inside⟩
  · exact h

theorem quotient_valid (hab : a ≠ b) (ha : a ∈ l.nodeIds) (h : l.Everywhere Level.Valid) :
    (quotient a b t ts l).Everywhere Level.Valid := by
  obtain ⟨hd, hn, he⟩ := Level.valid_iff.mp h
  refine Level.valid_iff.mpr ⟨?ids, ?nodes, ?edges⟩
  case ids =>
    rw [nodeIds_quotient]
    exact hd.filter _
  case nodes =>
    intro n hmem
    obtain ⟨m, hm, rfl⟩ := List.mem_map.mp hmem
    exact takeOver_valid (hn m (List.mem_of_mem_filter hm))
  case edges =>
    have himage : ∀ id ∈ l.nodeIds, image a b id ∈ l.nodeIds := by
      intro id hid
      unfold image
      split
      · exact ha
      · exact hid
    intro e hmem
    simp only [quotient, redirected, redirectAll_edges, List.mem_map] at hmem
    obtain ⟨f, hf, rfl⟩ := hmem
    obtain ⟨hs, ht⟩ := he f (kept_sublist.subset hf)
    rw [Edge.Within, nodeIds_quotient]
    simp only [List.mem_filter, decide_eq_true_eq]
    exact ⟨⟨himage _ hs, image_ne hab⟩, himage _ ht, image_ne hab⟩

-- ---------------------------------------------------------------------------
-- A commit right after the beginning
-- ---------------------------------------------------------------------------

theorem unchanged_self (h : l.data? id = some d) : unchanged l id d = true ↔ d.Numeric := by
  rw [unchanged_iff, ← TaskData.beq_self_iff]
  simp [h]

section

variable (hb : Begun r.target r.dropped l r.toPending)
include hb

theorem Begun.stage_ok (hv : l.Everywhere Level.Valid) (hx : r.targetData.Numeric)
    (hy : r.droppedData.Numeric) :
    ∃ l', stage r l = .ok l' ∧ l'.validate = .ok () := by
  have ha : r.target ∈ l.nodeIds := by
    obtain ⟨n, hn, -⟩ := Level.data?_eq_some.mp hb.targetData
    obtain ⟨hmem, hid⟩ := Level.node?_mem hn
    exact hid ▸ List.mem_map_of_mem hmem
  have hvalid : (quotient r.target r.dropped r.task r.sources l).validate = .ok () :=
    Level.validate_ok.mpr (quotient_valid hb.ne ha hv)
  exact ⟨_, Merge.stage_ok.mpr ⟨(unchanged_self hb.targetData).mpr hx,
    (unchanged_self hb.droppedData).mpr hy, rfl, hvalid⟩, hvalid⟩

theorem Begun.stage_target (hx : ¬ r.targetData.Numeric) :
    stage r l = .error (.stale r.target) := by
  have hchanged := mt (unchanged_self hb.targetData).mp hx
  simp [stage, hchanged]

theorem Begun.stage_dropped (hx : r.targetData.Numeric) (hy : ¬ r.droppedData.Numeric) :
    stage r l = .error (.stale r.dropped) := by
  have hsame := (unchanged_self hb.targetData).mpr hx
  have hchanged := mt (unchanged_self hb.droppedData).mp hy
  simp [stage, hsame, hchanged]

/-- The commit runs on the flagged level, and is stated of the level from before. -/
theorem Begun.commit_refused (hs : stage r l = .error e) :
    (commit append r s (start r.target r.dropped l).level).result = (.error e, s) ∧
      (commit append r s (start r.target r.dropped l).level).level = l := by
  rw [level_start hb]
  have hflagged : stage r (setFlag true r.target l) = .error e := stage_setFlag.trans hs
  obtain ⟨hresult, hlevel⟩ := Merge.commit_refused hflagged
  exact ⟨hresult, hlevel.trans hb.unflag⟩

end

/-- A merge of two free nodes of a valid level that is begun, resolved and committed with nothing in
between succeeds, if the store takes the task and all temperatures of the two nodes are numbers. If
not, it is refused for the first of the nodes whose temperatures are not, and leaves no trace. -/
theorem undisturbed_merge (hv : l.validate = .ok ()) (hab : a ≠ b) (hx : l.data? a = some x)
    (hy : l.data? b = some y) (hxf : x.combining = false) (hyf : y.combining = false)
    (happend : ∀ t, ∃ added s', append t s = (.ok added, s')) (c : Config) (namer : Namer)
    (hasClock : Bool) (tokens : TokenSupply) : ∃ p r, (start a b l).result = .ok p ∧
      r = (resolve c namer hasClock tokens p).1 ∧
      (x.Numeric ∧ y.Numeric →
        (∃ o s', (commit append r s (start a b l).level).result = (.ok o, s') ∧
          o.node = a ∧ o.removed = b ∧ o.task = r.task) ∧
        (commit append r s (start a b l).level).level.validate = .ok ()) ∧
      (¬ x.Numeric → (commit append r s (start a b l).level).result = (.error (.stale a), s) ∧
        (commit append r s (start a b l).level).level = l) ∧
      (x.Numeric → ¬ y.Numeric →
        (commit append r s (start a b l).level).result = (.error (.stale b), s) ∧
        (commit append r s (start a b l).level).level = l) := by
  obtain ⟨p, hp⟩ := exists_begun hab hx hy hxf hyf
  rcases hr : resolve c namer hasClock tokens p with ⟨r, rest⟩
  have hpending : r.toPending = p := congrArg (·.1.toPending) hr.symm
  refine ⟨p, r, start_ok.mpr hp, by rw [hr], ?_⟩
  subst hpending
  obtain rfl := hp.target
  obtain rfl := hp.dropped
  cases hx.symm.trans hp.targetData
  cases hy.symm.trans hp.droppedData
  refine ⟨?_, fun hx => hp.commit_refused (hp.stage_target hx),
    fun hx hy => hp.commit_refused (hp.stage_dropped hx hy)⟩
  rintro ⟨hx, hy⟩
  obtain ⟨l', hstage, hvalid⟩ := hp.stage_ok (Level.validate_ok.mp hv) hx hy
  have hflagged : stage r (setFlag true r.target l) = .ok l' := stage_setFlag.trans hstage
  obtain ⟨added, s', hadded⟩ := happend r.task
  obtain ⟨hlevel, o, ho, hnode, hremoved, htask⟩ := commit_staged hflagged hadded
  rw [level_start hp, hlevel]
  exact ⟨⟨o, s', ho, hnode, hremoved, htask⟩, hvalid⟩

/-- A task with a temperature. -/
def warm (id : String) (temperature : Float) : Task where
  id := id
  name := id
  config := { temperature := some temperature }

def pair (x y : TaskData) : Level where
  nodes := [{ id := "a", kind := .task, data := some x },
    { id := "b", kind := .task, data := some y }]
  edges := [⟨"1", "a", "b", none, false⟩, ⟨"2", "b", "b", none, false⟩]

/-- Infinite temperatures are no obstacle, also among the tasks that were merged before. -/
theorem undisturbed_merge_infinite :
    let x : TaskData := { task := warm "x" (1 / 0), combined := some [warm "u" (-(1 / 0))] }
    let y : TaskData := { task := warm "y" 0.5 }
    (pair x y).validate = .ok () ∧ x.Numeric ∧ y.Numeric ∧
      ∃ p o s', (start "a" "b" (pair x y)).result = .ok p ∧
        (commit MemoryStore.put (resolve {} noNamer true ⟨toString, 0⟩ p).1 {}
          (start "a" "b" (pair x y)).level).result = (.ok o, s') := by
  intro x y
  have hx : x.Numeric := by
    refine ⟨?_, ?_⟩
    · rintro _ ⟨⟩
      decide +kernel
    · rintro _ ⟨⟩ t ht
      obtain rfl := List.mem_singleton.mp ht
      rintro _ ⟨⟩
      decide +kernel
  have hy : y.Numeric := by
    refine ⟨?_, nofun⟩
    rintro _ ⟨⟩
    decide +kernel
  have hv : (pair x y).validate = .ok () := rfl
  have hput : ∀ t, ∃ added s', MemoryStore.put t {} = (.ok added, s') := fun _ => ⟨_, _, rfl⟩
  obtain ⟨p, r, hp, rfl, hok, -⟩ := undisturbed_merge (x := x) (y := y) hv (by decide : "a" ≠ "b")
    rfl rfl rfl rfl hput {} noNamer true ⟨toString, 0⟩
  obtain ⟨⟨o, s', ho, -⟩, -⟩ := hok ⟨hx, hy⟩
  exact ⟨hv, hx, hy, p, o, s', hp, ho⟩

/-- A node whose temperature is not a number counts as changed from the very beginning. -/
theorem stale_though_unchanged :
    let x : TaskData := { task := warm "x" (0 / 0) }
    let y : TaskData := { task := warm "y" 0.5 }
    (pair x y).validate = .ok () ∧ ∃ p, (start "a" "b" (pair x y)).result = .ok p ∧
      (commit MemoryStore.put (resolve {} noNamer true ⟨toString, 0⟩ p).1 {}
        (start "a" "b" (pair x y)).level).result = (.error (.stale "a"), {}) := by
  intro x y
  have hp : (start "a" "b" (pair x y)).result =
      .ok ⟨"a", "b", x, y, sources x y, config x.task y.task (sources x y)⟩ := rfl
  refine ⟨rfl, _, hp, ?_⟩
  have hnan : ¬ x.Numeric := fun h => absurd (h.task _ rfl) (by decide +kernel)
  have hbegun : Begun "a" "b" (pair x y) (resolve {} noNamer true ⟨toString, 0⟩ _).1.toPending :=
    start_ok.mp hp
  exact (hbegun.commit_refused (hbegun.stage_target hnan)).1

end Merge

end Workflow

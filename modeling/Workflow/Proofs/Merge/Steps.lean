import Workflow.Merge.Run
import Workflow.Proofs.Graph.Valid

/-!
# What the steps of a merge do

Each step is read once: when it succeeds, what it leaves, and what it leaves when it fails. A begun
merge differs from the level before it by the flag of its target only, and clearing that flag gives
the level back.
-/

namespace Workflow.Merge

variable {σ : Type} {append : Task → σ → Except StoreError Bool × σ}
variable {a b id j : String} {flag flag' : Bool} {l l' : Level} {s s' : σ}
variable {p : Pending} {r : Resolved} {o : Outcome} {e : MergeError} {d was : TaskData}
variable {t : Task} {ts : List Task}

-- ---------------------------------------------------------------------------
-- The flag
-- ---------------------------------------------------------------------------

def flagged (flag : Bool) (d : TaskData) : TaskData := { d with combining := flag }

theorem setFlag_eq : setFlag flag id l = l.mapNode id (·.mapData (flagged flag)) := rfl

@[simp] theorem nodeIds_setFlag : (setFlag flag id l).nodeIds = l.nodeIds :=
  Level.nodeIds_mapNode fun _ h => h

theorem node?_setFlag : (setFlag flag id l).node? j =
    if j = id then (l.node? id).map (·.mapData (flagged flag)) else l.node? j :=
  Level.node?_mapNode fun _ h => h

theorem data?_setFlag : (setFlag flag id l).data? j =
    if j = id then (l.data? id).map (flagged flag) else l.data? j :=
  Level.data?_mapNode (fun _ => rfl) fun _ => rfl

/-- Changing a flag and changing it back gives back the level. -/
theorem setFlag_setFlag (h : l.data? id = some d) (hc : d.combining = flag) :
    setFlag flag id (setFlag flag' id l) = l := by
  obtain ⟨n, hn, hd⟩ := Level.data?_eq_some.mp h
  obtain ⟨nodes, edges⟩ := l
  simp only [setFlag_eq, Level.mapNode, Level.mk.injEq, and_true]
  rw [Level.mapFirst_mapFirst (f := (·.mapData (flagged flag'))) fun _ h => h]
  apply Level.mapFirst_self
  intro m hm
  obtain rfl : n = m := Option.some.inj (hn.symm.trans hm)
  obtain ⟨id, kind, position, label, data⟩ := n
  obtain ⟨task, enabled, combined, subflow, combining⟩ := d
  simp_all [Node.mapData, flagged]

-- ---------------------------------------------------------------------------
-- Beginning
-- ---------------------------------------------------------------------------

theorem taskData_ok : taskData l id = .ok d ↔ l.data? id = some d := by
  unfold taskData Level.data?
  cases l.node? id with
  | none => simp
  | some n => cases h : n.data <;> simp [h]

/-- What a merge has taken down at its beginning on a level. -/
structure Begun (a b : String) (l : Level) (p : Pending) : Prop where
  target : p.target = a
  dropped : p.dropped = b
  ne : a ≠ b
  targetData : l.data? a = some p.targetData
  droppedData : l.data? b = some p.droppedData
  targetFree : p.targetData.combining = false
  droppedFree : p.droppedData.combining = false
  sources : p.sources = Merge.sources p.targetData p.droppedData
  config : p.config = Merge.config p.targetData.task p.droppedData.task p.sources

theorem prepare_ok : prepare a b l = .ok p ↔ Begun a b l p := by
  simp only [prepare, bind, Except.bind, pure, Except.pure]
  constructor
  · intro h
    split at h
    · cases h
    rename_i hne
    cases ht : taskData l a with
    | error e => simp [ht] at h
    | ok t =>
      cases hd : taskData l b with
      | error e => simp [ht, hd] at h
      | ok d =>
        simp only [ht, hd] at h
        split at h
        · cases h
        rename_i htf
        split at h
        · cases h
        rename_i hdf
        cases h
        exact ⟨rfl, rfl, hne, taskData_ok.mp ht, taskData_ok.mp hd, by simpa using htf,
          by simpa using hdf, rfl, rfl⟩
  · rintro ⟨rfl, rfl, hne, ht, hd, htf, hdf, hs, hc⟩
    obtain ⟨target, dropped, targetData, droppedData, sources, config⟩ := p
    rw [← taskData_ok] at ht hd
    simp_all

theorem start_ok : (start a b l).result = .ok p ↔ Begun a b l p := by
  rw [← prepare_ok, start]
  split <;> simp_all [Edited.refused]

theorem level_start (h : Begun a b l p) :
    (start a b l).level = setFlag true a l := by
  simp [start, prepare_ok.mpr h]

theorem level_start_refused (h : (start a b l).result = .error e) :
    (start a b l).level = l := by
  unfold start at h ⊢
  split <;> simp_all [Edited.refused]

@[simp] theorem departure_start : (start a b l).departure = none := by
  unfold start
  split <;> rfl

theorem Begun.sources_eq (h : Begun a b l p) :
    p.sources = p.targetData.sourceTasks ++ p.droppedData.sourceTasks := h.sources

theorem Begun.unflag (h : Begun a b l p) : setFlag false a (setFlag true a l) = l :=
  setFlag_setFlag h.targetData h.targetFree

/-- Clearing the flag of a begun merge gives back the level from before. -/
theorem Begun.undo (h : Begun a b l p) :
    setFlag false p.target (start a b l).level = l := by
  rw [level_start h, h.target]
  exact h.unflag

theorem exists_begun {x y : TaskData} (hab : a ≠ b) (hx : l.data? a = some x)
    (hy : l.data? b = some y) (hxf : x.combining = false) (hyf : y.combining = false) :
    ∃ p, Begun a b l p :=
  ⟨⟨a, b, x, y, Merge.sources x y, Merge.config x.task y.task (Merge.sources x y)⟩, rfl, rfl, hab, hx,
    hy, hxf, hyf, rfl, rfl⟩

/-- Why a merge of `b` onto `a` cannot begin. -/
inductive Refusal (a b : String) (l : Level) : MergeError → Prop
  | sameNode : a = b → Refusal a b l (.sameNode a)
  | nodeNotFound {id : String} : id = a ∨ id = b → id ∉ l.nodeIds → Refusal a b l (.nodeNotFound id)
  | notTaskBearing {id : String} {n : Node} : id = a ∨ id = b → l.node? id = some n → n.data = none →
    Refusal a b l (.notTaskBearing id)
  | inProgress {id : String} {d : TaskData} : id = a ∨ id = b → l.data? id = some d →
    d.combining = true → Refusal a b l (.inProgress id)

theorem taskData_error (hj : j = a ∨ j = b) (h : taskData l j = .error e) : Refusal a b l e := by
  unfold taskData at h
  split at h
  · rename_i hn
    cases h
    exact .nodeNotFound hj (Level.node?_eq_none.mp hn)
  · rename_i n hn
    split at h
    · rename_i hd
      cases h
      exact .notTaskBearing hj hn hd
    · cases h

theorem refusal_of_start (h : (start a b l).result = .error e) : Refusal a b l e := by
  have h : prepare a b l = .error e := by
    unfold start at h
    split at h <;> simp_all [Edited.refused]
  simp only [prepare, bind, Except.bind, pure, Except.pure] at h
  split at h
  · rename_i hab
    cases h
    exact .sameNode hab
  cases ha : taskData l a with
  | error e' =>
    simp only [ha] at h
    cases h
    exact taskData_error (.inl rfl) ha
  | ok x =>
    cases hb : taskData l b with
    | error e' =>
      simp only [ha, hb] at h
      cases h
      exact taskData_error (.inr rfl) hb
    | ok y =>
      simp only [ha, hb] at h
      split at h
      · rename_i hx
        cases h
        exact .inProgress (.inl rfl) (taskData_ok.mp ha) hx
      split at h
      · rename_i hy
        cases h
        exact .inProgress (.inr rfl) (taskData_ok.mp hb) hy
      · cases h

-- ---------------------------------------------------------------------------
-- Committing
-- ---------------------------------------------------------------------------

theorem unchanged_iff : unchanged l id was = true ↔
    ∃ d, l.data? id = some d ∧ (d.task == was.task) = true ∧
      (d.combined == was.combined) = true := by
  unfold unchanged Level.data?
  cases (l.node? id).bind (·.data) <;> simp

theorem stage_ok : stage r l = .ok l' ↔
    unchanged l r.target r.targetData = true ∧ unchanged l r.dropped r.droppedData = true ∧
      l' = quotient r.target r.dropped r.task r.sources l ∧ l'.validate = .ok () := by
  unfold stage
  split
  · simp_all
  split
  · simp_all
  rename_i ht hd
  simp only [Bool.not_eq_true', Bool.not_eq_false] at ht hd
  simp only [ht, hd, true_and]
  split
  · rename_i hv
    simp only [reduceCtorEq, false_iff]
    rintro ⟨rfl, h⟩
    simp [hv] at h
  · rename_i hv
    simp only [Except.ok.injEq]
    exact ⟨fun h => ⟨h.symm, h ▸ hv⟩, fun h => h.1.symm⟩

theorem commit_staged {added : Bool} (hs : stage r l = .ok l')
    (happend : append r.task s = (.ok added, s')) :
    (commit append r s l).level = l' ∧ ∃ o, (commit append r s l).result = (.ok o, s') ∧
      o.node = r.target ∧ o.removed = r.dropped ∧ o.task = r.task := by
  simp only [commit, hs, happend]
  exact ⟨trivial, _, rfl, rfl, rfl, rfl⟩

theorem commit_refused (hs : stage r l = .error e) :
    (commit append r s l).result = (.error e, s) ∧
      (commit append r s l).level = setFlag false r.target l := by
  simp only [commit, hs]
  exact ⟨rfl, rfl⟩

/-- A commit that succeeds has stored the task and leaves the staged level. -/
theorem commit_ok (h : (commit append r s l).result = (.ok o, s')) :
    stage r l = .ok (commit append r s l).level ∧
      (commit append r s l).departure = some ⟨r.dropped, some r.target⟩ ∧
      (∃ added, append r.task s = (.ok added, s')) ∧
      o = ⟨r.target, r.dropped, r.task, (redirected r.target r.dropped l.edges).dropped⟩ := by
  unfold commit at h ⊢
  split at h
  · cases h
  rename_i staged hs
  split at h
  · cases h
  rename_i added s₁ ha
  cases h
  simp only [hs, ha]
  exact ⟨trivial, trivial, ⟨added, rfl⟩, trivial⟩

/-- A commit that fails clears the flag, and has reached the store at most with an append that
failed. -/
theorem commit_error (h : (commit append r s l).result = (.error e, s')) :
    (commit append r s l).level = setFlag false r.target l ∧
      (commit append r s l).departure = none ∧
      (s' = s ∨ ∃ cause, append r.task s = (.error cause, s')) := by
  unfold commit at h ⊢
  split at h
  · rename_i e hs
    cases h
    simp [fail, Edited.refused]
  · rename_i staged hs
    split at h
    · rename_i cause s₁ ha
      cases h
      simp only [ha]
      exact ⟨rfl, rfl, .inr ⟨cause, rfl⟩⟩
    · cases h

-- ---------------------------------------------------------------------------
-- The flag of the target does not matter to a commit
-- ---------------------------------------------------------------------------

theorem unchanged_setFlag : unchanged (setFlag flag a l) id was = unchanged l id was := by
  rw [Bool.eq_iff_iff, unchanged_iff, unchanged_iff, data?_setFlag]
  split
  · rename_i h
    subst h
    simp only [Option.map_eq_some_iff]
    constructor
    · rintro ⟨_, ⟨d, hd, rfl⟩, h⟩
      exact ⟨d, hd, h⟩
    · rintro ⟨d, hd, h⟩
      exact ⟨_, ⟨d, hd, rfl⟩, h⟩
  · rfl

theorem takeOver_flagged {n : Node} (h : n.id = a) :
    takeOver a t ts (n.mapData (flagged flag)) = takeOver a t ts n := by
  simp [takeOver, h, Node.mapData, flagged, Function.comp_def]

theorem quotient_setFlag : quotient a b t ts (setFlag flag a l) = quotient a b t ts l := by
  obtain ⟨nodes, edges⟩ := l
  simp only [quotient, setFlag_eq, Level.mapNode, Level.mk.injEq, and_true]
  induction nodes with
  | nil => rfl
  | cons n ns ih =>
    simp only [Level.mapFirst]
    split
    · rename_i hid
      have hid : n.id = a := by simpa using hid
      by_cases hb : n.id = b
      · simp [hb]
      · simp [hb, takeOver_flagged hid]
    · by_cases hb : n.id = b
      · simpa [hb] using ih
      · simpa [hb] using ih

theorem stage_setFlag : stage r (setFlag flag r.target l) = stage r l := by
  simp only [stage, unchanged_setFlag, quotient_setFlag]

-- ---------------------------------------------------------------------------
-- A whole merge
-- ---------------------------------------------------------------------------

/-- The task is made of the configuration that the merge has taken down. -/
def Resolved.Made (r : Resolved) : Prop :=
  ∃ c id name, r.task = Merge.task c r.toPending id name

theorem made_resolve {c : Config} {namer : Namer} {clock : Bool} {tokens : TokenSupply} :
    (resolve c namer clock tokens p).1.Made :=
  ⟨c, _, _, rfl⟩

section
variable {c : Setting σ} {tokens rest : TokenSupply}

theorem combine_refused (h : (start a b l).result = .error e) :
    combine c a b tokens s l = { level := l, result := (.error e, tokens, s) } := by
  simp [combine, h, level_start_refused h]

theorem combine_dropped (h : Begun a b l p) (hout : c.dropsOut p = true) :
    combine c a b tokens s l = { level := l, result := (.ok .cancelled, tokens, s) } := by
  simp only [combine, start_ok.mpr h, hout, if_true]
  exact congrArg (Edited.mk · none _) h.undo

theorem combine_committed (h : Begun a b l p) (hout : c.dropsOut p = false)
    (hr : resolve c.config c.namer c.hasClock tokens p = (r, rest)) :
    combine c a b tokens s l =
      let e := commit c.append r s (setFlag true a l)
      { e with result := (e.result.1.map .done, rest, e.result.2) } := by
  simp only [combine, start_ok.mpr h, hout, hr, level_start h]
  rfl

/-- A whole merge does all of a commit on the level as it was, or nothing. -/
theorem combine_cases (c : Setting σ) (a b : String) (tokens : TokenSupply) (s : σ) (l : Level) :
    (∃ r o, (combine c a b tokens s l).result.1 = .ok (.done o) ∧ Begun a b l r.toPending ∧
      r = (resolve c.config c.namer c.hasClock tokens r.toPending).1 ∧
      stage r l = .ok (combine c a b tokens s l).level ∧
      (combine c a b tokens s l).departure = some ⟨b, some a⟩ ∧ o.node = a ∧ o.removed = b) ∨
    (∀ o, (combine c a b tokens s l).result.1 ≠ .ok (.done o)) ∧
      (combine c a b tokens s l).level = l ∧ (combine c a b tokens s l).departure = none := by
  cases hs : (start a b l).result with
  | error e =>
    rw [combine_refused hs]
    exact .inr ⟨fun _ => nofun, rfl, rfl⟩
  | ok p =>
    have hbegun := start_ok.mp hs
    cases hout : c.dropsOut p with
    | true =>
      rw [combine_dropped hbegun hout]
      exact .inr ⟨fun _ => nofun, rfl, rfl⟩
    | false =>
      have hp : (resolve c.config c.namer c.hasClock tokens p).1.toPending = p := rfl
      rcases hr : resolve c.config c.namer c.hasClock tokens p with ⟨r, rest⟩
      rw [combine_committed hbegun hout hr]
      rw [hr] at hp
      have hundo := hbegun.unflag
      subst hp
      obtain rfl := hbegun.target
      obtain rfl := hbegun.dropped
      -- The commit runs on the flagged level, and is stated of the level from before.
      rcases hc : (commit c.append r s (setFlag true r.target l)).result with ⟨_ | o, s'⟩
      · obtain ⟨hlevel, hdeparture, -⟩ := commit_error hc
        exact .inr ⟨by simp [hc, Except.map], hlevel.trans hundo, hdeparture⟩
      · obtain ⟨hstage, hdeparture, -, ho⟩ := commit_ok hc
        rw [stage_setFlag] at hstage
        exact .inl ⟨r, o, by simp [hc, Except.map], hbegun, congrArg Prod.fst hr.symm, hstage,
          hdeparture, congrArg (·.node) ho, congrArg (·.removed) ho⟩

/-- A whole merge that succeeds has stored the task that its outcome tells of. -/
theorem combine_done (h : (combine c a b tokens s l).result = (.ok (.done o), rest, s')) :
    ∃ r, Begun a b l r.toPending ∧ stage r l = .ok (combine c a b tokens s l).level ∧
      (∃ added, c.append r.task s = (.ok added, s')) ∧ o.node = a ∧ o.task = r.task := by
  cases hs : (start a b l).result with
  | error e => simp [combine_refused hs] at h
  | ok p =>
    have hbegun := start_ok.mp hs
    cases hout : c.dropsOut p with
    | true => simp [combine_dropped hbegun hout] at h
    | false =>
      have hp : (resolve c.config c.namer c.hasClock tokens p).1.toPending = p := rfl
      rcases hr : resolve c.config c.namer c.hasClock tokens p with ⟨r, rest'⟩
      rw [hr] at hp
      rw [combine_committed hbegun hout hr] at h ⊢
      subst hp
      obtain rfl := hbegun.target
      rcases hc : (commit c.append r s (setFlag true r.target l)).result with ⟨_ | o', s₁⟩
      · simp [hc, Except.map] at h
      · simp only [hc, Except.map, Prod.mk.injEq, Except.ok.injEq, Ending.done.injEq] at h
        obtain ⟨rfl, -, rfl⟩ := h
        obtain ⟨hstage, -, hadded, ho⟩ := commit_ok hc
        rw [stage_setFlag] at hstage
        exact ⟨r, hbegun, hstage, hadded, congrArg (·.node) ho, congrArg (·.task) ho⟩

end

end Workflow.Merge

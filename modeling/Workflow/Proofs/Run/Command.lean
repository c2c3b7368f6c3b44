import Workflow.Proofs.Merge.Effects

/-!
# Commands on a level

Whoever edits a level keeps the merges that have begun and those that have their tasks on a desk,
and may go on with any of them at any time, on any level, and more than once. `effect_edit` says
once what a command can do to a level; what holds along a run is derived from it.
-/

namespace Workflow

def Edited.map {α β : Type} (f : α → β) (e : Edited α) : Edited β :=
  { level := e.level, departure := e.departure, result := f e.result }

section
variable {α β : Type} (f : α → β) (e : Edited α)

@[simp] theorem Edited.map_level : (e.map f).level = e.level := rfl
@[simp] theorem Edited.map_departure : (e.map f).departure = e.departure := rfl
@[simp] theorem Edited.map_result : (e.map f).result = f e.result := rfl

end

/-- What commands work with besides a level. -/
structure Desk (σ : Type) where
  tokens : TokenSupply
  store : σ
  pending : List Merge.Pending := []
  resolved : List Merge.Resolved := []

/-- What is done to a level. Merges go by their numbers on the desk, which are never given again. -/
inductive Command (σ : Type)
  | addTask (task : Task) (position : Option Position)
  | connect (source target : String)
  | remove (id : String)
  | start (target dropped : String)
  | resolve (c : Merge.Setting σ) (k : Nat)
  | commit (c : Merge.Setting σ) (k : Nat)
  | abort (k : Nat)
  | combine (c : Merge.Setting σ) (target dropped : String)

inductive Answer
  | added (id : String)
  | connected (result : Except GraphError String)
  | removed (result : Except GraphError Node)
  | started (result : Except MergeError Merge.Pending)
  | resolved (result : Merge.Resolved)
  | committed (result : Except MergeError Merge.Outcome)
  | aborted
  | combined (result : Except MergeError Merge.Ending)
  /-- There is no merge of the number. -/
  | noMerge

namespace Command

variable {σ : Type}

def edit (d : Desk σ) (l : Level) : Command σ → Edited (Answer × Desk σ)
  | addTask task position =>
    (l.addTask task position d.tokens).map fun (id, tokens) => (.added id, { d with tokens })
  | connect source target => (l.connect source target).map fun result => (.connected result, d)
  | remove id => (l.remove id).map fun result => (.removed result, d)
  | start target dropped => (Merge.start target dropped l).map fun result =>
    (.started result, { d with pending := d.pending ++ result.toOption.toList })
  | resolve c k =>
    match d.pending[k]? with
    | some p =>
      let (r, tokens) := Merge.resolve c.config c.namer c.hasClock d.tokens p
      { level := l, result := (.resolved r, { d with tokens, resolved := d.resolved ++ [r] }) }
    | none => { level := l, result := (.noMerge, d) }
  | commit c k =>
    match d.resolved[k]? with
    | some r => (Merge.commit c.append r d.store l).map fun (result, store) =>
      (.committed result, { d with store })
    | none => { level := l, result := (.noMerge, d) }
  | abort k =>
    match d.pending[k]? with
    | some p => (Merge.abort p l).map fun () => (.aborted, d)
    | none => { level := l, result := (.noMerge, d) }
  | combine c target dropped =>
    (Merge.combine c target dropped d.tokens d.store l).map fun (result, tokens, store) =>
      (.combined result, { d with tokens, store })

end Command

/-- What a command did to the nodes of its level. -/
inductive Posting
  | nothing
  | brought (id : String) (task : Task)
  | taken (n : Node)
  | merged (target dropped : String)

def Command.posting {σ : Type} : Command σ → Answer → Posting
  | .addTask task _, .added id => .brought id task.normalized
  | _, .removed (.ok n) => .taken n
  | _, .committed (.ok o) => .merged o.node o.removed
  | _, .combined (.ok (.done o)) => .merged o.node o.removed
  | _, _ => .nothing

/-- The merge of a resolved one is on the desk, or begins on the level. -/
structure Desk.Knows {σ : Type} (d : Desk σ) (l : Level) (r : Merge.Resolved) : Prop where
  made : r.Made
  pending : r.toPending ∈ d.pending ∨ Merge.Begun r.target r.dropped l r.toPending

/-- What a command can do to a level, with its posting. -/
inductive Effect {σ : Type} (d : Desk σ) (l : Level) : Level → Option Departure → Posting → Prop
  | kept : Effect d l l none .nothing
  | added (id : String) (task : Task) (position : Option Position) :
    Effect d l { l with nodes := l.nodes ++ [.ofTask id task position] } none
      (.brought id task.normalized)
  | connected (e : Edge) : e.Within l.nodeIds →
    Effect d l { l with edges := l.edges ++ [e] } none .nothing
  | removed {id : String} {n : Node} : l.node? id = some n →
    Effect d l ⟨Level.eraseFirst id l.nodes, l.edges.filter (!·.touches id)⟩ (some ⟨id, none⟩)
      (.taken n)
  | flagged (flag : Bool) (id : String) : Effect d l (Merge.setFlag flag id l) none .nothing
  | merged {l' : Level} {r : Merge.Resolved} : d.Knows l r → Merge.stage r l = .ok l' →
    Effect d l l' (some ⟨r.dropped, some r.target⟩) (.merged r.target r.dropped)

/-- Every resolved merge of the desk is one of its pending ones with a task made for it. -/
def Desk.Orderly {σ : Type} (d : Desk σ) : Prop :=
  ∀ r ∈ d.resolved, r.toPending ∈ d.pending ∧ r.Made

namespace Command

variable {σ : Type} {d : Desk σ} {l : Level} {c : Command σ} {p : Merge.Pending}

theorem effect_edit (hd : d.Orderly) (c : Command σ) :
    Effect d l (c.edit d l).level (c.edit d l).departure (c.posting (c.edit d l).result.1) := by
  cases c with
  | addTask task position => exact .added _ task position
  | connect source target =>
    simp only [edit, Edited.map_level, Edited.map_departure, Edited.map_result, Level.connect]
    split
    · exact .kept
    rename_i hs
    split
    · exact .kept
    rename_i ht
    have hs : source ∈ l.nodeIds := Level.contains_iff.mp (by simpa using hs)
    have ht : target ∈ l.nodeIds := Level.contains_iff.mp (by simpa using ht)
    split
    · exact .kept
    · exact .connected _ ⟨hs, ht⟩
  | remove id =>
    simp only [edit, Edited.map_level, Edited.map_departure, Edited.map_result, Level.remove]
    split
    · exact .kept
    · rename_i n hn
      exact .removed hn
  | start target dropped =>
    cases hr : (Merge.start target dropped l).result with
    | error e =>
      simp only [edit, Edited.map_level, Edited.map_departure, Edited.map_result, hr,
        Merge.departure_start, Merge.level_start_refused hr]
      exact .kept
    | ok p =>
      simp only [edit, Edited.map_level, Edited.map_departure, Edited.map_result, hr,
        Merge.departure_start, Merge.level_start (Merge.start_ok.mp hr)]
      exact .flagged true target
  | resolve c k =>
    simp only [edit]
    split <;> exact .kept
  | commit c k =>
    simp only [edit]
    split
    · rename_i r hk
      -- A commit that fails still clears the flag, also on a level where the merge did not begin.
      obtain ⟨hp, hmade⟩ := hd r (List.mem_of_getElem? hk)
      rcases hr : (Merge.commit c.append r d.store l).result with ⟨e | o, s⟩
      · obtain ⟨hlevel, hdeparture, -⟩ := Merge.commit_error hr
        simp only [Edited.map_level, Edited.map_departure, Edited.map_result, hr, hlevel, hdeparture]
        exact .flagged false r.target
      · obtain ⟨hstage, hdeparture, -, rfl⟩ := Merge.commit_ok hr
        simp only [Edited.map_level, Edited.map_departure, Edited.map_result, hr, hdeparture]
        exact .merged ⟨hmade, .inl hp⟩ hstage
    · exact .kept
  | abort k =>
    simp only [edit]
    split
    · rename_i p hk
      exact .flagged false p.target
    · exact .kept
  | combine c target dropped =>
    simp only [edit, Edited.map_level, Edited.map_departure, Edited.map_result]
    rcases Merge.combine_cases c target dropped d.tokens d.store l with
      ⟨r, o, hdone, hbegun, hresolve, hstage, hdeparture, hn, hrem⟩ | ⟨hdone, hlevel, hdeparture⟩
    · have hmade : r.Made := hresolve ▸ Merge.made_resolve
      obtain rfl := hbegun.target
      obtain rfl := hbegun.dropped
      rw [hdone, hdeparture, posting, hn, hrem]
      exact .merged ⟨hmade, .inr hbegun⟩ hstage
    · rw [hlevel, hdeparture]
      rcases hr : (Merge.combine c target dropped d.tokens d.store l).result.1 with e | _ | _
      · exact .kept
      · rename_i o
        exact absurd hr (hdone o)
      · exact .kept

theorem posting_brought {a : Answer} {id : String} {task : Task}
    (h : c.posting a = .brought id task) :
    a = .added id ∧ ∃ t position, c = .addTask t position := by
  unfold posting at h
  split at h
  · cases h
    exact ⟨rfl, _, _, rfl⟩
  all_goals cases h

/-- A merge on the desk was there, or begins on the level. -/
theorem pending_edit (hp : p ∈ (c.edit d l).result.2.pending) :
    p ∈ d.pending ∨ Merge.Begun p.target p.dropped l p := by
  cases c with
  | start target dropped =>
    rcases List.mem_append.mp hp with hp | hp
    · exact .inl hp
    · cases hr : (Merge.start target dropped l).result with
      | error e => simp [hr, Except.toOption] at hp
      | ok q =>
        obtain rfl : p = q := by simpa [hr, Except.toOption] using hp
        have hbegun := Merge.start_ok.mp hr
        obtain rfl := hbegun.target
        obtain rfl := hbegun.dropped
        exact .inr hbegun
  | resolve c k =>
    simp only [edit] at hp
    split at hp <;> exact .inl hp
  | commit c k =>
    simp only [edit] at hp
    split at hp <;> exact .inl hp
  | abort k =>
    simp only [edit] at hp
    split at hp <;> exact .inl hp
  | addTask | connect | remove | combine => exact .inl hp

theorem pending_kept (hp : p ∈ d.pending) : p ∈ (c.edit d l).result.2.pending := by
  cases c with
  | start => exact List.mem_append_left _ hp
  | resolve c k =>
    simp only [edit]
    split <;> exact hp
  | commit c k =>
    simp only [edit]
    split <;> exact hp
  | abort k =>
    simp only [edit]
    split <;> exact hp
  | addTask | connect | remove | combine => exact hp

theorem resolved_edit {r : Merge.Resolved} (hr : r ∈ (c.edit d l).result.2.resolved) :
    r ∈ d.resolved ∨ r.toPending ∈ d.pending ∧ r.Made := by
  cases c with
  | resolve c k =>
    simp only [edit] at hr
    split at hr
    · rename_i p hk
      rcases List.mem_append.mp hr with hr | hr
      · exact .inl hr
      · obtain rfl := List.mem_singleton.mp hr
        exact .inr ⟨List.mem_of_getElem? hk, Merge.made_resolve⟩
    · exact .inl hr
  | commit c k =>
    simp only [edit] at hr
    split at hr <;> exact .inl hr
  | abort k =>
    simp only [edit] at hr
    split at hr <;> exact .inl hr
  | addTask | connect | remove | start | combine => exact .inl hr

theorem orderly_edit (hd : d.Orderly) : (c.edit d l).result.2.Orderly := by
  intro r hr
  rcases resolved_edit hr with hr | ⟨hp, hmade⟩
  · exact ⟨pending_kept (hd r hr).1, (hd r hr).2⟩
  · exact ⟨pending_kept hp, hmade⟩

end Command

end Workflow

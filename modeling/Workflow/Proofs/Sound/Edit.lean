import Workflow.Proofs.Graph.Fresh
import Workflow.Proofs.Layout.Frame
import Workflow.Proofs.Merge.Quotient
import Workflow.Proofs.Run.Command
import Workflow.Proofs.Sound.Basic

/-!
# Edits keep levels sound

An edit is sound if it leaves a sound level and its departure tells which ids are gone. All commands
are, and so are layouts. A sound edit keeps a graph sound at whatever path it is made: below the
root it leaves the ids of the root alone, and at the root the phases follow the departure.
-/

namespace Workflow

variable {σ : Type} {d : Desk σ} {l l' : Level} {dep : Option Departure} {e : Posting} {g g' : Graph}
variable {id : String} {p : Merge.Pending} {r : Merge.Resolved}

/-- A departure tells the only id that goes, and its survivor is there. -/
structure Departed (l l' : Level) (dep : Option Departure) : Prop where
  stays : ∀ id ∈ l.nodeIds, (∀ d ∈ dep, id ≠ d.removed) → id ∈ l'.nodeIds
  survivor : ∀ d ∈ dep, ∀ s ∈ d.survivor, s ∈ l'.nodeIds

theorem Departed.of_subset (h : l.nodeIds ⊆ l'.nodeIds) : Departed l l' none :=
  ⟨fun _ hid _ => h hid, nofun⟩

def SoundEdit {α : Type} (f : Level → Edited α) : Prop :=
  ∀ l, l.Everywhere Level.Sound →
    (f l).level.Everywhere Level.Sound ∧ Departed l (f l).level (f l).departure

-- ---------------------------------------------------------------------------
-- Merges
-- ---------------------------------------------------------------------------

/-- What a merge must have taken down for its commit to be sound, wherever it is committed. -/
structure Merge.Pending.Sound (p : Pending) : Prop where
  ne : p.target ≠ p.dropped
  count : 2 ≤ p.sources.length
  sources : ∀ t ∈ p.sources, t.Tidy
  config : p.config.Tidy

theorem Merge.Begun.sound (h : Begun p.target p.dropped l p) (hl : l.Everywhere Level.Sound) :
    p.Sound := by
  have tidy : ∀ id x, l.data? id = some x → x.Tidy := by
    intro id x hx
    obtain ⟨n, hn, hd⟩ := Level.data?_eq_some.mp hx
    exact hl.here.tidy n (Level.node?_mem hn).1 x hd
  refine ⟨h.ne, ?_, ?_, ?_⟩
  · have ht := p.targetData.sourceTasks_pos
    have hd := p.droppedData.sourceTasks_pos
    rw [h.sources_eq, List.length_append]
    omega
  · intro t ht
    rw [h.sources_eq] at ht
    rcases List.mem_append.mp ht with ht | ht
    · exact (tidy _ _ h.targetData).sourceTasks ht
    · exact (tidy _ _ h.droppedData).sourceTasks ht
  · rw [h.config]
    exact config_tidy _ _ _

structure Desk.Sound (d : Desk σ) : Prop where
  tokens : Function.Injective d.tokens.token
  orderly : d.Orderly
  pending : ∀ p ∈ d.pending, p.Sound

theorem Desk.Sound.knows (h : d.Sound) (hl : l.Everywhere Level.Sound) (hk : d.Knows l r) :
    r.toPending.Sound ∧ r.task.Tidy := by
  have hp : r.toPending.Sound := by
    rcases hk.pending with hp | hp
    · exact h.pending _ hp
    · exact hp.sound hl
  obtain ⟨c, id, name, ht⟩ := hk.made
  refine ⟨hp, ?_⟩
  rw [ht]
  exact hp.config

theorem stage_sound (hp : r.toPending.Sound) (ht : r.task.Tidy) (hl : l.Everywhere Level.Sound)
    (hs : Merge.stage r l = .ok l') : l'.Everywhere Level.Sound := by
  obtain ⟨-, -, rfl, hv⟩ := Merge.stage_ok.mp hs
  -- Ids and edges are sound because the staged level has passed the check.
  have hvalid := (Level.validate_ok.mp hv).here
  obtain ⟨-, hn, -⟩ := Level.sound_iff.mp hl
  refine Level.sound_iff.mpr ⟨hvalid.ids, ?_, hvalid.edges⟩
  intro m hm
  obtain ⟨n, hmem, rfl⟩ := List.mem_map.mp hm
  have hsound := hn n (List.mem_of_mem_filter hmem)
  unfold Merge.takeOver
  split
  · refine hsound.mapData (fun d _ => ⟨ht, ?_⟩) fun d sub hd hs => hsound.inside sub ?_
    · rintro ts ⟨⟩
      exact ⟨hp.count, hp.sources⟩
    · simpa [Node.subflow, hd] using hs
  · exact hsound

theorem stage_departed (hp : r.toPending.Sound) (hs : Merge.stage r l = .ok l') :
    Departed l l' (some ⟨r.dropped, some r.target⟩) := by
  obtain ⟨ht, -, rfl, -⟩ := Merge.stage_ok.mp hs
  obtain ⟨x, hx, -⟩ := Merge.unchanged_iff.mp ht
  constructor
  · intro id hid hne
    rw [Merge.nodeIds_quotient]
    exact List.mem_filter.mpr ⟨hid, by simpa using hne _ rfl⟩
  · rintro _ ⟨⟩ s ⟨⟩
    rw [Merge.nodeIds_quotient]
    exact List.mem_filter.mpr ⟨Level.data?_mem hx, by simpa using hp.ne⟩

-- ---------------------------------------------------------------------------
-- Commands
-- ---------------------------------------------------------------------------

theorem setFlag_sound {flag : Bool} (hl : l.Everywhere Level.Sound) :
    (Merge.setFlag flag id l).Everywhere Level.Sound := by
  obtain ⟨-, hn, -⟩ := Level.sound_iff.mp hl
  refine Level.mapNode_sound hl (fun _ h => h) fun n hmem _ => ?_
  have hsound := hn n hmem
  refine hsound.mapData (fun x hx => ?_) fun x sub hx hs => hsound.inside sub ?_
  · exact ⟨(hsound.tidy x hx).task, (hsound.tidy x hx).combined⟩
  · simpa [Node.subflow, hx] using hs

theorem remove_sound (hl : l.Everywhere Level.Sound) (id : String) :
    (⟨Level.eraseFirst id l.nodes, l.edges.filter (!·.touches id)⟩ : Level).Everywhere
      Level.Sound :=
  Level.sound_iff.mpr ((Level.sound_iff.mp hl).remove id)

theorem remove_departed (hd : l.nodeIds.Nodup) (es : List Edge) :
    Departed l ⟨Level.eraseFirst id l.nodes, es⟩ (some ⟨id, none⟩) := by
  refine ⟨fun j hj hne => ?_, ?_⟩
  · rw [Level.eraseFirst_eq_filter hd, Level.nodeIds_mk, Level.ids_filter_ne]
    exact List.mem_filter.mpr ⟨hj, by simpa using hne _ rfl⟩
  · rintro _ ⟨⟩ s ⟨⟩

theorem Effect.sound (he : Effect d l l' dep e) (hd : d.Sound) (hl : l.Everywhere Level.Sound)
    (hfresh : ∀ id task, e = .brought id task → id ∉ l.nodeIds) :
    l'.Everywhere Level.Sound ∧ Departed l l' dep := by
  obtain ⟨hids, hn, hedges⟩ := Level.sound_iff.mp hl
  cases he with
  | kept => exact ⟨hl, .of_subset fun _ h => h⟩
  | added id task position =>
    refine ⟨Level.sound_iff.mpr ((Level.sound_iff.mp hl).insert ofTask_sound (hfresh _ _ rfl)
      List.perm_append_comm), .of_subset ?_⟩
    rw [Level.nodeIds_mk, List.map_append]
    exact List.subset_append_left _ _
  | connected e hw =>
    refine ⟨Level.sound_iff.mpr ⟨hids, hn, ?_⟩, .of_subset fun _ h => h⟩
    intro e' he'
    rcases List.mem_append.mp he' with he' | he'
    · exact hedges e' he'
    · obtain rfl := List.mem_singleton.mp he'
      exact hw
  | @removed id n hn => exact ⟨remove_sound hl id, remove_departed hids _⟩
  | flagged flag id => exact ⟨setFlag_sound hl, .of_subset (by simp)⟩
  | merged hk hs =>
    obtain ⟨hp, ht⟩ := hd.knows hl hk
    exact ⟨stage_sound hp ht hl hs, stage_departed hp hs⟩

namespace Command

variable {c : Command σ}

theorem brought_free (htokens : Function.Injective d.tokens.token) {task : Task}
    (h : c.posting (c.edit d l).result.1 = .brought id task) : id ∉ l.nodeIds := by
  obtain ⟨hanswer, t, position, rfl⟩ := posting_brought h
  cases hanswer
  exact TokenSupply.freshNodeId_free htokens

theorem edit_sound (hd : d.Sound) (c : Command σ) : SoundEdit (c.edit d) :=
  fun _ hl => (effect_edit hd.orderly c).sound hd hl fun _ _ => brought_free hd.tokens

theorem token_edit : (c.edit d l).result.2.tokens.token = d.tokens.token := by
  cases c with
  | addTask | connect | remove | start => rfl
  | resolve c k =>
    simp only [edit]
    split <;> rfl
  | commit c k =>
    simp only [edit]
    split <;> rfl
  | abort k =>
    simp only [edit]
    split <;> rfl
  | combine c target dropped =>
    simp only [edit, Edited.map_result, Merge.combine]
    split
    · rfl
    · split <;> rfl

theorem desk_sound (hd : d.Sound) (hl : l.Everywhere Level.Sound) :
    (c.edit d l).result.2.Sound where
  tokens := by
    rw [token_edit]
    exact hd.tokens
  orderly := orderly_edit hd.orderly
  pending p hp := by
    rcases pending_edit hp with hp | hp
    · exact hd.pending p hp
    · exact hp.sound hl

end Command

end Workflow

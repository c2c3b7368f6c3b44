import Workflow.Proofs.Sound.Edit
import Workflow.Proofs.Subflow.View

/-!
# Editing views are sound

A view of a sound subflow is sound, and so is the interior of a sound view. Keeping a view in a node
is therefore a sound edit, as is removing a node of a view.
-/

namespace Workflow

variable {n n' : Node} {view : Level} {b : Boundary} {taken : List String} {stored : Option Level}

-- ---------------------------------------------------------------------------
-- Views
-- ---------------------------------------------------------------------------

theorem Boundary.toNode_sound (hb : b.kind.isBoundary) : (b.toNode taken).Sound where
  task hk := by
    have hk : b.kind = .task := hk
    rw [hk] at hb
    cases hb
  boundary _ := rfl
  tidy d hd := nomatch hd
  inside sub hs := nomatch hs

namespace Level

theorem editingView_sound (h : ∀ sub ∈ stored, sub.Everywhere Sound) :
    (editingView stored).Everywhere Sound := by
  have hstored : (stored.getD {}).Everywhere Sound := by
    cases stored with
    | none => exact empty_sound
    | some sub => exact h sub rfl
  exact sound_iff.mpr ((sound_iff.mp hstored).editingView fun _ _ => Boundary.toNode_sound)

theorem interior_sound (h : view.Everywhere Sound) : view.interior.Everywhere Sound :=
  sound_iff.mpr (sound_iff.mp h).interior

theorem removeInterior_sound (id : String) : SoundEdit (removeInterior id) := by
  intro l hl
  unfold removeInterior
  split
  · exact ⟨hl, .of_subset fun _ h => h⟩
  · simp only [remove]
    split
    · exact ⟨hl, .of_subset fun _ h => h⟩
    · exact ⟨remove_sound hl id, remove_departed hl.here.ids _⟩

end Level

theorem Node.openSubflow_sound (h : n.Sound) (ho : n.openSubflow = .ok view) :
    view.Everywhere Level.Sound := by
  unfold openSubflow at ho
  split at ho
  · cases ho
    exact Level.editingView_sound h.inside
  · cases ho

-- ---------------------------------------------------------------------------
-- Keeping a view
-- ---------------------------------------------------------------------------

theorem Node.attach_sound (hn : n.Sound) (hv : view.Everywhere Level.Sound)
    (h : n.attach view = .ok n') : n'.Sound := by
  obtain ⟨-, d, hd, rfl⟩ := attach_ok h
  have htidy := hn.tidy d hd
  refine ⟨fun _ => rfl, fun hk => ?_, ?_, ?_⟩
  · have := hn.boundary hk
    rw [hd] at this
    cases this
  · rintro _ ⟨⟩
    exact ⟨htidy.task, htidy.combined⟩
  · intro sub hs
    simp only [subflow, Option.bind_some] at hs
    split at hs
    · cases hs
    · cases hs
      exact Level.interior_sound hv

theorem Level.attach_sound (hv : view.Everywhere Sound) (id : String) :
    SoundEdit (attach id view) := by
  intro l hl
  unfold attach
  split
  · exact ⟨hl, .of_subset fun _ h => h⟩
  · rename_i n hn
    obtain ⟨hmem, hid⟩ := node?_mem hn
    obtain ⟨-, hnodes, -⟩ := sound_iff.mp hl
    split
    · exact ⟨hl, .of_subset fun _ h => h⟩
    · rename_i n' hn'
      have hid' : n'.id = id := by
        obtain ⟨-, d, -, rfl⟩ := Node.attach_ok hn'
        exact hid
      refine ⟨mapNode_sound hl (fun _ _ => hid') fun _ _ _ =>
        Node.attach_sound (hnodes n hmem) hv hn', ?_⟩
      refine .of_subset ?_
      rw [nodeIds_mapNode fun _ _ => hid']
      exact fun _ h => h

end Workflow

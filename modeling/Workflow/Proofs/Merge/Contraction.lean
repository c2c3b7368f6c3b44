import Workflow.Proofs.Merge.Quotient

/-!
# Levels that are contracted by many merges

After several merges a level is the old one with its nodes led over by a function, as after one merge
it is led over by `image`. The function alone says which nodes and connections are left.
-/

namespace Workflow

/-- Some edge leads from `source` to `target`. -/
def Level.Connects (l : Level) (source target : String) : Prop :=
  ∃ e ∈ l.edges, e.source = source ∧ e.target = target

namespace Merge

variable {l l₁ l₂ : Level} {a b u v : String} {t : Task} {ts : List Task} {f : String → String}

/-- `l'` is `l` with each node led over by `f`: nodes that are led elsewhere are gone, and of the
connections that are led over those that have become loops are. -/
structure Contracts (f : String → String) (l l' : Level) : Prop where
  nodeIds : l'.nodeIds = l.nodeIds.filter fun id => f id = id
  connects : ∀ s t, l'.Connects s t ↔
    ∃ u v, l.Connects u v ∧ f u = s ∧ f v = t ∧ (f u ≠ u ∨ f v ≠ v → s ≠ t)

theorem Contracts.refl (l : Level) : Contracts id l l where
  nodeIds := by simp
  connects s t := by simp

theorem connects_quotient : (quotient a b t ts l).Connects u v ↔
    ∃ u₀ v₀, l.Connects u₀ v₀ ∧ image a b u₀ = u ∧ image a b v₀ = v ∧
      (u₀ = b ∨ v₀ = b → u ≠ v) := by
  refine Iff.trans connections_redirected ⟨?_, ?_⟩
  · rintro ⟨e, he, hs, ht, hloop⟩
    exact ⟨_, _, ⟨e, he, rfl, rfl⟩, hs, ht, by simpa [Edge.touches] using hloop⟩
  · rintro ⟨_, _, ⟨e, he, rfl, rfl⟩, hs, ht, hloop⟩
    exact ⟨e, he, hs, ht, by simpa [Edge.touches] using hloop⟩

section
variable (ha : f a = a) (hb : f b = b) (hab : a ≠ b)
include ha hb hab

theorem image_fixed : image a b (f u) = u ↔ f u = u ∧ u ≠ b := by
  unfold image
  split
  · rename_i hu
    constructor
    · rintro rfl
      exact absurd (ha.symm.trans hu) hab
    · rintro ⟨h, hne⟩
      exact absurd (h.symm.trans hu) hne
  · rename_i hu
    constructor
    · intro h
      exact ⟨h, fun hub => hu (by rw [hub, hb])⟩
    · exact fun h => h.1

/-- Loops are left out in two steps as in one. -/
theorem no_loop_image :
    (f u ≠ u ∨ f v ≠ v → f u ≠ f v) ∧ (f u = b ∨ f v = b → image a b (f u) ≠ image a b (f v)) ↔
      (image a b (f u) ≠ u ∨ image a b (f v) ≠ v → image a b (f u) ≠ image a b (f v)) := by
  have fixed : ∀ w, image a b (f w) = w ↔ f w = w ∧ w ≠ b := fun w => image_fixed ha hb hab
  constructor
  · rintro ⟨hold, hnew⟩ hmoved heq
    have hu : f u ≠ b := fun h => hnew (.inl h) heq
    have hv : f v ≠ b := fun h => hnew (.inr h) heq
    rw [image_of_ne hu, image_of_ne hv] at heq
    have hsame : f u = u ∧ f v = v := by
      constructor
      · exact Classical.not_not.mp fun h => hold (.inl h) heq
      · exact Classical.not_not.mp fun h => hold (.inr h) heq
    rcases hmoved with h | h
    · exact h ((fixed u).mpr ⟨hsame.1, fun hub => hu (hub ▸ hb)⟩)
    · exact h ((fixed v).mpr ⟨hsame.2, fun hvb => hv (hvb ▸ hb)⟩)
  · intro h
    refine ⟨fun hmoved heq => ?_, fun hto => h ?_⟩
    · refine h ?_ (congrArg (image a b) heq)
      exact hmoved.imp (fun hne hu => hne ((fixed u).mp hu).1) fun hne hv => hne ((fixed v).mp hv).1
    · refine hto.imp (fun hub hu => ?_) fun hvb hv => ?_
      · obtain ⟨hu, hne⟩ := (fixed u).mp hu
        exact hne (hu.symm.trans hub)
      · obtain ⟨hv, hne⟩ := (fixed v).mp hv
        exact hne (hv.symm.trans hvb)

end

theorem Contracts.quotient (h : Contracts f l l₁) (ha : f a = a) (hb : f b = b) (hab : a ≠ b) :
    Contracts (image a b ∘ f) l (quotient a b t ts l₁) where
  nodeIds := by
    rw [nodeIds_quotient, h.nodeIds, List.filter_filter]
    refine List.filter_congr fun id _ => ?_
    simp only [Function.comp, image_fixed ha hb hab, Bool.decide_and, Bool.and_comm]
  connects s t := by
    rw [connects_quotient]
    constructor
    · rintro ⟨_, _, hc₁, rfl, rfl, hnew⟩
      obtain ⟨u, v, hc, rfl, rfl, hold⟩ := (h.connects _ _).mp hc₁
      exact ⟨u, v, hc, rfl, rfl, (no_loop_image ha hb hab).mp ⟨hold, hnew⟩⟩
    · rintro ⟨u, v, hc, rfl, rfl, hloop⟩
      obtain ⟨hold, hnew⟩ := (no_loop_image ha hb hab).mpr hloop
      exact ⟨_, _, (h.connects _ _).mpr ⟨u, v, hc, rfl, rfl, hold⟩, rfl, rfl, hnew⟩

end Merge

end Workflow

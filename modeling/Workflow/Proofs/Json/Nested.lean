import Workflow.Proofs.Json.Reread

/-!
# Shapes that are nested in one another

A value with levels nested in it is written and read with a shape that is deep enough for it.
`Nesting` says why the depth does not matter: all shapes that are deep enough write a level alike, and
every level inside is a container inside what is written. So it is enough to reread one level, given
that the levels inside it are reread: `Nesting.rereads`, `Nesting.around_rereads`.
-/

namespace Workflow.Codec

variable {α β : Type}

/-- A shape of values around the shape of the levels inside them: what is written of a value depends on
how the levels inside are written, not on how they would be read, and contains them. -/
structure Around (shape : Codec β → Codec α) (inside : α → β → Prop) : Prop where
  write_congr : ∀ {c c' a}, (∀ b, inside a b → c.write b = c'.write b) →
    (shape c).write a = (shape c').write a
  height_lt : ∀ {c a b}, inside a b → (c.write b).height < ((shape c).write a).height

theorem Around.list {shape : Codec β → Codec α} {inside : α → β → Prop} (h : Around shape inside) :
    Around (fun c => (shape c).list) (fun as b => ∃ a ∈ as, inside a b) where
  write_congr hc := list_write_congr fun a ha => h.write_congr fun b hb => hc b ⟨a, ha, hb⟩
  height_lt := by
    rintro c as b ⟨a, ha, hb⟩
    exact Nat.lt_trans (h.height_lt hb) (list_height_lt ha)

/-- Levels nested in one another, with a shape for each depth. -/
structure Nesting (level : Codec β → Codec β) (nested : Nat → Codec β) (inside : β → β → Prop)
    (height : β → Nat) : Prop where
  around : Around level inside
  nested_succ : ∀ depth, nested (depth + 1) = level (nested depth)
  refusesNull : ∀ depth, (nested depth).RefusesNull
  height_pos : ∀ b, 0 < height b
  height_le : ∀ {b depth}, height b ≤ depth + 1 ↔ ∀ sub, inside b sub → height sub ≤ depth

namespace Nesting

variable {level : Codec β → Codec β} {nested : Nat → Codec β} {inside : β → β → Prop}
variable {height : β → Nat} {b : β} {depth depth' : Nat}

/-- All shapes that are deep enough write a level alike. -/
theorem write_eq (hn : Nesting level nested inside height) (h : height b ≤ depth)
    (h' : height b ≤ depth') : (nested depth).write b = (nested depth').write b := by
  induction depth generalizing b depth' with
  | zero => exact absurd h (by have := hn.height_pos b; omega)
  | succ depth ih =>
    obtain ⟨depth', rfl⟩ : ∃ k, depth' = k + 1 := ⟨depth' - 1, by have := hn.height_pos b; omega⟩
    rw [hn.nested_succ, hn.nested_succ]
    exact hn.around.write_congr fun sub hs =>
      ih (hn.height_le.mp h sub hs) (hn.height_le.mp h' sub hs)

/-- A level has no more levels in it than what is written of it has containers. -/
theorem height_le_write (hn : Nesting level nested inside height) (h : height b ≤ depth) :
    height b ≤ ((nested depth).write b).height + 1 := by
  induction depth generalizing b with
  | zero => exact absurd h (by have := hn.height_pos b; omega)
  | succ depth ih =>
    rw [hn.nested_succ]
    refine hn.height_le.mpr fun sub hs => ?_
    calc
      height sub ≤ ((nested depth).write sub).height + 1 := ih (hn.height_le.mp h sub hs)
      _ ≤ ((level (nested depth)).write b).height := hn.around.height_lt hs

/-- Every shape that is deep enough rereads a level, if one level is reread wherever the levels inside
it are. -/
theorem rereads {Fit : β → Prop} {clear : β → β} (hn : Nesting level nested inside height)
    (hfit : ∀ {b sub}, Fit b → inside b sub → Fit sub)
    (hlevel : ∀ {c b}, Fit b → c.RefusesNull → (∀ sub, inside b sub → c.Rereads sub (clear sub)) →
      (level c).Rereads b (clear b))
    (hb : Fit b) (h : height b ≤ depth) : (nested depth).Rereads b (clear b) := by
  induction depth generalizing b with
  | zero => exact absurd h (by have := hn.height_pos b; omega)
  | succ depth ih =>
    rw [hn.nested_succ]
    exact hlevel hb (hn.refusesNull depth) fun sub hs => ih (hfit hb hs) (hn.height_le.mp h sub hs)

/-- The shape of the levels themselves, deep enough for each. -/
theorem level_rereads {v : β} (hn : Nesting level nested inside height)
    (h : ∀ {depth}, height b ≤ depth → (nested depth).Rereads b v) : (deep nested height).Rereads b v :=
  deep_rereads (fun _ => h) (fun _ hb => hn.write_eq hb (Nat.le_refl _))
    (hn.height_le_write (Nat.le_refl _))

/-- A shape around the levels, deep enough for those inside. -/
theorem around_rereads {shape : Codec β → Codec α} {within : α → β → Prop} {extent : α → Nat}
    {a v : α} (hn : Nesting level nested inside height) (ha : Around shape within)
    (hle : ∀ {depth}, extent a ≤ depth → ∀ b, within a b → height b ≤ depth)
    (hge : ∀ {depth}, (∀ b, within a b → height b ≤ depth) → extent a ≤ depth + 1)
    (hread : ∀ {depth}, (∀ b, within a b → height b ≤ depth) → (shape (nested depth)).Rereads a v) :
    (deep (fun depth => shape (nested depth)) extent).Rereads a v := by
  refine deep_rereads (fun _ h => hread (hle h)) (fun _ h => ha.write_congr fun b hb => ?_) ?_
  · exact hn.write_eq (hle h b hb) (hle (Nat.le_refl _) b hb)
  · refine hge fun b hb => ?_
    calc
      height b ≤ ((nested (extent a)).write b).height + 1 :=
        hn.height_le_write (hle (Nat.le_refl _) b hb)
      _ ≤ ((shape (nested (extent a))).write a).height := ha.height_lt hb

end Nesting

end Workflow.Codec

import Mathlib.Data.List.Forall2
import Mathlib.Data.List.Perm.Basic
import Workflow.Json.Basic

/-!
# Values whose fields stand in another order

An object is a map: `Reordered` relates two values that differ in the order of fields only, at any
depth. Sorting a value that repeats no key is such a change, `reordered_canonical`.
-/

namespace Workflow.Json

mutual

/-- A value that no text stands in for, and no object of which repeats a key. -/
def IsValue : Json → Prop
  | arr items => ItemsAreValues items
  | obj fields => (fields.map (·.1)).Nodup ∧ FieldsAreValues fields
  | broken | unreadable _ | unkeyed _ => False
  | _ => True

def ItemsAreValues : List Json → Prop
  | [] => True
  | j :: js => j.IsValue ∧ ItemsAreValues js

def FieldsAreValues : List (String × Json) → Prop
  | [] => True
  | (_, j) :: fs => j.IsValue ∧ FieldsAreValues fs

end

mutual

/-- The second value is the first one with the fields of its objects in some other order. -/
def Reordered : Json → Json → Prop
  | arr items, j => ∃ items', j = arr items' ∧ ItemsReordered items items'
  | obj fields, j => ∃ fields' moved, j = obj moved ∧ FieldsReordered fields fields' ∧ fields'.Perm moved
  | i, j => j = i

def ItemsReordered : List Json → List Json → Prop
  | [], js => js = []
  | i :: is, js => ∃ j js', js = j :: js' ∧ i.Reordered j ∧ ItemsReordered is js'

/-- The values of the fields are reordered, the fields stay where they are. -/
def FieldsReordered : List (String × Json) → List (String × Json) → Prop
  | [], gs => gs = []
  | (k, i) :: fs, gs => ∃ j gs', gs = (k, j) :: gs' ∧ i.Reordered j ∧ FieldsReordered fs gs'

end

variable {i j : Json} {items items' : List Json} {fields fields' gs : List (String × Json)}
variable {k : String} {v : Json}

-- ---------------------------------------------------------------------------
-- Item by item and field by field
-- ---------------------------------------------------------------------------

@[simp] theorem isValue_arr : (arr items).IsValue ↔ ∀ j ∈ items, j.IsValue := by
  have h : ItemsAreValues items ↔ ∀ j ∈ items, j.IsValue := by
    induction items with
    | nil => simp [ItemsAreValues]
    | cons j js ih => simp [ItemsAreValues, ih]
  rw [IsValue, h]

@[simp] theorem isValue_obj :
    (obj fields).IsValue ↔ (fields.map (·.1)).Nodup ∧ ∀ f ∈ fields, f.2.IsValue := by
  have h : FieldsAreValues fields ↔ ∀ f ∈ fields, f.2.IsValue := by
    induction fields with
    | nil => simp [FieldsAreValues]
    | cons f fs ih => simp [FieldsAreValues, ih]
  rw [IsValue, h]

theorem IsValue.isKeyed (h : j.IsValue) : j.isKeyed := by
  cases j with
  | unkeyed v => exact h.elim
  | _ => rfl

theorem itemsReordered_iff : ItemsReordered items items' ↔ List.Forall₂ Reordered items items' := by
  induction items generalizing items' with
  | nil => simp [ItemsReordered]
  | cons i is ih =>
    simp only [ItemsReordered, ih, List.forall₂_cons_left_iff]
    grind

theorem FieldsReordered.keys (h : FieldsReordered fields fields') :
    fields'.map (·.1) = fields.map (·.1) := by
  induction fields generalizing fields' with
  | nil => simp_all [FieldsReordered]
  | cons f fs ih =>
    obtain ⟨j, gs, rfl, -, h⟩ := h
    simp [ih h]

mutual

theorem reordered_refl : ∀ j : Json, j.Reordered j
  | arr items => ⟨items, rfl, itemsReordered_refl items⟩
  | obj fields => ⟨fields, fields, rfl, fieldsReordered_refl fields, .refl _⟩
  | null | bool _ | int _ | float _ | str _ | broken | unreadable _ | unkeyed _ => rfl

theorem itemsReordered_refl : ∀ items, ItemsReordered items items
  | [] => rfl
  | j :: js => ⟨j, js, rfl, reordered_refl j, itemsReordered_refl js⟩

theorem fieldsReordered_refl : ∀ fields, FieldsReordered fields fields
  | [] => rfl
  | (_, j) :: fs => ⟨j, fs, rfl, reordered_refl j, fieldsReordered_refl fs⟩

end

/-- A field of the reordered object comes from a field of the object. -/
theorem mem_of_reordered (h : FieldsReordered fields fields') (hp : fields'.Perm gs)
    (hk : (k, v) ∈ gs) : ∃ w, (k, w) ∈ fields ∧ w.Reordered v := by
  have hmem := hp.symm.subset hk
  clear hp hk
  induction fields generalizing fields' with
  | nil => simp_all [FieldsReordered]
  | cons f fs ih =>
    obtain ⟨w, gs', rfl, hw, h⟩ := h
    rcases List.mem_cons.mp hmem with hf | hmem
    · cases hf
      exact ⟨f.2, List.mem_cons_self, hw⟩
    · obtain ⟨w, hmem, hw⟩ := ih h hmem
      exact ⟨w, List.mem_cons_of_mem _ hmem, hw⟩

-- ---------------------------------------------------------------------------
-- What the order does not change
-- ---------------------------------------------------------------------------

theorem Reordered.isKeyed (h : i.Reordered j) : j.isKeyed = i.isKeyed := by
  cases i with
  | arr items =>
    obtain ⟨_, rfl, -⟩ := h
    rfl
  | obj fields =>
    obtain ⟨_, _, rfl, -⟩ := h
    rfl
  | _ => rw [h]

theorem Reordered.ne_null (h : i.Reordered j) (hi : i ≠ null) : j ≠ null := by
  cases i with
  | null => exact absurd rfl hi
  | arr items =>
    obtain ⟨_, rfl, -⟩ := h
    exact nofun
  | obj fields =>
    obtain ⟨_, _, rfl, -⟩ := h
    exact nofun
  | _ =>
    cases h
    exact nofun

theorem heightFields_perm (h : fields.Perm gs) : heightFields fields = heightFields gs := by
  induction h with
  | nil => rfl
  | cons f _ ih => simp only [heightFields, ih]
  | swap f g fs => simp only [heightFields, Nat.max_left_comm]
  | trans _ _ ih ih' => exact ih.trans ih'

mutual

theorem height_reordered : ∀ {i j : Json}, i.Reordered j → j.height = i.height
  | arr items, _, ⟨_, rfl, h⟩ => by simp only [height, heightItems_reordered h]
  | obj fields, _, ⟨_, _, rfl, h, hp⟩ => by
    simp only [height, ← heightFields_perm hp, heightFields_reordered h]
  | null, _, rfl | bool _, _, rfl | int _, _, rfl | float _, _, rfl | str _, _, rfl => rfl
  | broken, _, rfl | unreadable _, _, rfl | unkeyed _, _, rfl => rfl

theorem heightItems_reordered : ∀ {items items' : List Json}, ItemsReordered items items' →
    heightItems items' = heightItems items
  | [], _, rfl => rfl
  | i :: is, _, ⟨j, js, rfl, h, hs⟩ => by
    simp only [heightItems, height_reordered h, heightItems_reordered hs]

theorem heightFields_reordered : ∀ {fields fields' : List (String × Json)},
    FieldsReordered fields fields' → heightFields fields' = heightFields fields
  | [], _, rfl => rfl
  | (_, i) :: fs, _, ⟨j, gs, rfl, h, hs⟩ => by
    simp only [heightFields, height_reordered h, heightFields_reordered hs]

end

theorem height_le_items (h : j ∈ items) : j.height ≤ heightItems items := by
  induction items with
  | nil => cases h
  | cons i is ih =>
    simp only [heightItems]
    rcases List.mem_cons.mp h with rfl | h
    · omega
    · have := ih h
      omega

theorem height_le_fields (h : (k, j) ∈ fields) : j.height ≤ heightFields fields := by
  induction fields with
  | nil => cases h
  | cons f fs ih =>
    simp only [heightFields]
    rcases List.mem_cons.mp h with rfl | h
    · exact Nat.le_max_left ..
    · have := ih h
      omega

-- ---------------------------------------------------------------------------
-- Sorting the fields
-- ---------------------------------------------------------------------------

theorem insertField_perm (h : k ∉ fields.map (·.1)) :
    (insertField k v fields).Perm ((k, v) :: fields) := by
  induction fields with
  | nil => exact .refl _
  | cons f fs ih =>
    simp only [List.map_cons, List.mem_cons, not_or] at h
    simp only [insertField, if_neg h.1]
    split
    · exact .refl _
    · exact ((ih h.2).cons f).trans (.swap ..)

mutual

theorem reordered_canonical : ∀ {j : Json}, j.IsValue → j.Reordered j.canonical
  | arr items, h => ⟨_, rfl, itemsReordered_canonical h⟩
  | obj fields, ⟨hd, h⟩ => by
    obtain ⟨gs, hgs, hp⟩ := fieldsReordered_canonical [] (by simpa using hd) h
    exact ⟨gs, _, rfl, hgs, hp⟩
  | null, _ | bool _, _ | int _, _ | float _, _ | str _, _ => rfl

theorem itemsReordered_canonical : ∀ {items : List Json}, ItemsAreValues items →
    ItemsReordered items (canonicalItems items)
  | [], _ => rfl
  | _ :: _, ⟨h, hs⟩ => ⟨_, _, rfl, reordered_canonical h, itemsReordered_canonical hs⟩

/-- Keys that are not repeated, here or in what is there already, are all inserted. -/
theorem fieldsReordered_canonical (into : List (String × Json)) : ∀ {fields : List (String × Json)},
    (into.map (·.1) ++ fields.map (·.1)).Nodup → FieldsAreValues fields →
      ∃ gs, FieldsReordered fields gs ∧ (into ++ gs).Perm (canonicalFields into fields)
  | [], _, _ => ⟨[], rfl, by simp [canonicalFields]⟩
  | (k, j) :: fs, hd, ⟨h, hs⟩ => by
    have hnew : k ∉ into.map (·.1) := fun hk =>
      (List.nodup_append.mp hd).2.2 k hk k List.mem_cons_self rfl
    have hins : (insertField k j.canonical into).Perm ((k, j.canonical) :: into) :=
      insertField_perm hnew
    have hd' : ((insertField k j.canonical into).map (·.1) ++ fs.map (·.1)).Nodup := by
      refine (List.Perm.nodup_iff ?_).mp hd
      exact List.perm_middle.trans ((hins.map (·.1)).symm.append_right _)
    obtain ⟨gs, hgs, hp⟩ := fieldsReordered_canonical _ hd' hs
    refine ⟨(k, j.canonical) :: gs, ⟨_, _, rfl, reordered_canonical h, hgs⟩, ?_⟩
    exact List.perm_middle.trans ((hins.symm.append_right gs).trans hp)

end

end Workflow.Json

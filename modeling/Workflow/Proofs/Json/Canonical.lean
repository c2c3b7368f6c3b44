import Mathlib.Data.String.Basic
import Workflow.Proofs.Json.Reread

/-!
# Values as maps

Reading any JSON keeps it as a map: the keys of an object are sorted and each stands once, `IsSorted`.
Such a value is its own map, and so is every value that differs from it in the order of fields only,
so free data is reread as it is.
-/

namespace Workflow.Json

mutual

/-- A value whose objects list their keys in order, each once. -/
def IsSorted : Json → Prop
  | arr items => ItemsAreSorted items
  | obj fields => (fields.map (·.1)).Pairwise (· < ·) ∧ FieldsAreSorted fields
  | broken | unreadable _ | unkeyed _ => False
  | _ => True

def ItemsAreSorted : List Json → Prop
  | [] => True
  | j :: js => j.IsSorted ∧ ItemsAreSorted js

def FieldsAreSorted : List (String × Json) → Prop
  | [] => True
  | (_, j) :: fs => j.IsSorted ∧ FieldsAreSorted fs

end

variable {i j v w : Json} {items items' : List Json} {fields fields' gs into : List (String × Json)}
variable {k k' : String}

-- ---------------------------------------------------------------------------
-- Inserting a field
-- ---------------------------------------------------------------------------

theorem mem_insertField {f : String × Json} (h : f ∈ insertField k v fields) :
    f = (k, v) ∨ f ∈ fields := by
  induction fields with
  | nil => simpa [insertField] using h
  | cons g gs ih =>
    obtain ⟨k', w⟩ := g
    simp only [insertField] at h
    split at h
    · simpa using h
    · split at h
      · rcases List.mem_cons.mp h with rfl | h
        · exact .inl rfl
        · exact .inr (List.mem_cons_of_mem _ h)
      · rcases List.mem_cons.mp h with rfl | h
        · exact .inr List.mem_cons_self
        · exact (ih h).imp_right (List.mem_cons_of_mem _)

theorem insertField_sorted (h : (fields.map (·.1)).Pairwise (· < ·)) :
    ((insertField k v fields).map (·.1)).Pairwise (· < ·) := by
  induction fields with
  | nil => simp [insertField]
  | cons g gs ih =>
    obtain ⟨k', w⟩ := g
    obtain ⟨hfirst, hrest⟩ := List.pairwise_cons.mp h
    simp only [insertField]
    split
    · rename_i hlt
      refine List.pairwise_cons.mpr ⟨fun key hkey => ?_, h⟩
      rcases List.mem_cons.mp hkey with rfl | hkey
      · exact hlt
      · exact hlt.trans (hfirst key hkey)
    · split
      · rename_i heq
        subst heq
        exact h
      · rename_i hge hne
        have hlt : k' < k := lt_of_le_of_ne (not_lt.mp hge) (Ne.symm hne)
        refine List.pairwise_cons.mpr ⟨fun key hkey => ?_, ih hrest⟩
        obtain ⟨f, hf, rfl⟩ := List.mem_map.mp hkey
        rcases mem_insertField hf with rfl | hf
        · exact hlt
        · exact hfirst _ (List.mem_map_of_mem hf)

/-- A field whose key comes last is put last. -/
theorem insertField_last (h : ∀ key ∈ fields.map (·.1), key < k) :
    insertField k v fields = fields ++ [(k, v)] := by
  induction fields with
  | nil => rfl
  | cons g gs ih =>
    obtain ⟨hlt, hrest⟩ := List.forall_mem_cons.mp h
    simp [insertField, hlt.not_gt, hlt.ne', ih hrest]

theorem insertField_comm (h : k ≠ k') :
    insertField k v (insertField k' w fields) = insertField k' w (insertField k v fields) := by
  induction fields with
  | nil =>
    rcases lt_or_gt_of_ne h with hlt | hlt <;>
      simp [insertField, hlt, hlt.not_gt, hlt.ne']
  | cons g gs ih =>
    obtain ⟨key, u⟩ := g
    grind [insertField]

-- ---------------------------------------------------------------------------
-- The map of a value
-- ---------------------------------------------------------------------------

theorem isSorted_obj : (obj fields).IsSorted ↔
    (fields.map (·.1)).Pairwise (· < ·) ∧ ∀ f ∈ fields, f.2.IsSorted := by
  have h : FieldsAreSorted fields ↔ ∀ f ∈ fields, f.2.IsSorted := by
    induction fields with
    | nil => simp [FieldsAreSorted]
    | cons f fs ih => simp [FieldsAreSorted, ih]
  rw [IsSorted, h]

mutual

/-- The map of a value is sorted. -/
theorem canonical_isSorted : ∀ {j : Json}, j.readable → j.canonical.IsSorted
  | arr _, h => canonicalItems_areSorted h
  | obj _, h => canonicalFields_isSorted (isSorted_obj.mpr (by simp)) h
  | null, _ | bool _, _ | int _, _ | float _, _ | str _, _ => trivial
  | broken, h | unreadable _, h | unkeyed _, h => nomatch h

theorem canonicalItems_areSorted : ∀ {items : List Json}, readableItems items →
    ItemsAreSorted (canonicalItems items)
  | [], _ => trivial
  | j :: js, h => by
    obtain ⟨hj, hjs⟩ := Bool.and_eq_true_iff.mp h
    exact ⟨canonical_isSorted hj, canonicalItems_areSorted hjs⟩

theorem canonicalFields_isSorted {into : List (String × Json)} (hinto : (obj into).IsSorted) :
    ∀ {fields : List (String × Json)}, readableFields fields →
      (obj (canonicalFields into fields)).IsSorted
  | [], _ => hinto
  | (k, j) :: fs, h => by
    obtain ⟨hj, hfs⟩ := Bool.and_eq_true_iff.mp h
    obtain ⟨hkeys, hvalues⟩ := isSorted_obj.mp hinto
    refine canonicalFields_isSorted (isSorted_obj.mpr ⟨insertField_sorted hkeys, fun f hf => ?_⟩) hfs
    rcases mem_insertField hf with rfl | hf
    · exact canonical_isSorted hj
    · exact hvalues f hf

end

mutual

/-- A sorted value is its own map. -/
theorem IsSorted.canonical_eq : ∀ {j : Json}, j.IsSorted → j.canonical = j
  | arr _, h => congrArg arr (canonicalItems_eq h)
  | obj _, ⟨hkeys, hvalues⟩ => congrArg obj (canonicalFields_eq [] hkeys hvalues)
  | null, _ | bool _, _ | int _, _ | float _, _ | str _, _ => rfl
  | broken, h | unreadable _, h | unkeyed _, h => h.elim

theorem canonicalItems_eq : ∀ {items : List Json}, ItemsAreSorted items →
    canonicalItems items = items
  | [], _ => rfl
  | _ :: _, ⟨hj, hjs⟩ => congrArg₂ List.cons hj.canonical_eq (canonicalItems_eq hjs)

theorem canonicalFields_eq (into : List (String × Json)) : ∀ {fields : List (String × Json)},
    (into.map (·.1) ++ fields.map (·.1)).Pairwise (· < ·) → FieldsAreSorted fields →
      canonicalFields into fields = into ++ fields
  | [], _, _ => (List.append_nil into).symm
  | (k, j) :: fs, hkeys, ⟨hj, hfs⟩ => by
    have hlast : ∀ key ∈ into.map (·.1), key < k := fun key hkey =>
      (List.pairwise_append.mp hkeys).2.2 key hkey k List.mem_cons_self
    have hkeys' : ((into ++ [(k, j)]).map (·.1) ++ fs.map (·.1)).Pairwise (· < ·) := by
      simpa using hkeys
    rw [canonicalFields, hj.canonical_eq, insertField_last hlast, canonicalFields_eq _ hkeys' hfs,
      List.append_assoc, List.singleton_append]

end

mutual

theorem IsSorted.readable : ∀ {j : Json}, j.IsSorted → j.readable
  | arr _, h => readable_items h
  | obj _, ⟨_, h⟩ => readable_fields h
  | null, _ | bool _, _ | int _, _ | float _, _ | str _, _ => rfl

theorem readable_items : ∀ {items : List Json}, ItemsAreSorted items → readableItems items
  | [], _ => rfl
  | _ :: _, ⟨hj, hjs⟩ => Bool.and_eq_true_iff.mpr ⟨hj.readable, readable_items hjs⟩

theorem readable_fields : ∀ {fields : List (String × Json)}, FieldsAreSorted fields →
    readableFields fields
  | [], _ => rfl
  | _ :: _, ⟨hj, hfs⟩ => Bool.and_eq_true_iff.mpr ⟨hj.readable, readable_fields hfs⟩

end

mutual

theorem IsSorted.isValue : ∀ {j : Json}, j.IsSorted → j.IsValue
  | arr _, h => itemsAreValues h
  | obj _, ⟨hkeys, h⟩ => ⟨hkeys.imp fun hlt => hlt.ne, fieldsAreValues h⟩
  | null, _ | bool _, _ | int _, _ | float _, _ | str _, _ => trivial

theorem itemsAreValues : ∀ {items : List Json}, ItemsAreSorted items → ItemsAreValues items
  | [], _ => trivial
  | _ :: _, ⟨hj, hjs⟩ => ⟨hj.isValue, itemsAreValues hjs⟩

theorem fieldsAreValues : ∀ {fields : List (String × Json)}, FieldsAreSorted fields →
    FieldsAreValues fields
  | [], _ => trivial
  | _ :: _, ⟨hj, hfs⟩ => ⟨hj.isValue, fieldsAreValues hfs⟩

end

-- ---------------------------------------------------------------------------
-- The map does not depend on the order of the fields
-- ---------------------------------------------------------------------------

theorem readableFields_eq (fields : List (String × Json)) :
    readableFields fields = fields.all (·.2.readable) := by
  induction fields with
  | nil => rfl
  | cons f fs ih => rw [readableFields, ih, List.all_cons]

theorem canonicalFields_perm (h : fields.Perm gs) (hd : (fields.map (·.1)).Nodup) :
    canonicalFields into fields = canonicalFields into gs := by
  induction h generalizing into with
  | nil => rfl
  | cons f _ ih => exact ih (List.nodup_cons.mp hd).2
  | swap f g fs =>
    have hne : g.1 ≠ f.1 := fun heq => by simp [heq] at hd
    simp only [canonicalFields, insertField_comm hne]
  | trans h _ ih ih' => exact (ih hd).trans (ih' ((h.map _).nodup_iff.mp hd))

mutual

theorem readable_reordered : ∀ {i j : Json}, i.Reordered j → j.readable = i.readable
  | arr _, _, ⟨_, rfl, h⟩ => readableItems_reordered h
  | obj _, _, ⟨fields', moved, rfl, h, hp⟩ => by
    rw [readable, readable, ← readableFields_reordered h, readableFields_eq, readableFields_eq,
      hp.symm.all_eq]
  | null, _, rfl | bool _, _, rfl | int _, _, rfl | float _, _, rfl | str _, _, rfl => rfl
  | broken, _, rfl | unreadable _, _, rfl | unkeyed _, _, rfl => rfl

theorem readableItems_reordered : ∀ {items items' : List Json}, ItemsReordered items items' →
    readableItems items' = readableItems items
  | [], _, rfl => rfl
  | _ :: _, _, ⟨_, _, rfl, h, hs⟩ =>
    congrArg₂ and (readable_reordered h) (readableItems_reordered hs)

theorem readableFields_reordered : ∀ {fields fields' : List (String × Json)},
    FieldsReordered fields fields' → readableFields fields' = readableFields fields
  | [], _, rfl => rfl
  | (_, _) :: _, _, ⟨_, _, rfl, h, hs⟩ =>
    congrArg₂ and (readable_reordered h) (readableFields_reordered hs)

end

mutual

theorem canonical_reordered : ∀ {i j : Json}, i.IsValue → i.Reordered j → j.canonical = i.canonical
  | arr _, _, hi, ⟨_, rfl, h⟩ => congrArg arr (canonicalItems_reordered hi h)
  | obj _, _, ⟨hd, hi⟩, ⟨fields', moved, rfl, h, hp⟩ => by
    have hd' : (fields'.map (·.1)).Nodup := h.keys ▸ hd
    rw [canonical, canonical, ← canonicalFields_perm hp hd', canonicalFields_reordered [] hi h]
  | null, _, _, rfl | bool _, _, _, rfl | int _, _, _, rfl | float _, _, _, rfl => rfl
  | str _, _, _, rfl => rfl

theorem canonicalItems_reordered : ∀ {items items' : List Json}, ItemsAreValues items →
    ItemsReordered items items' → canonicalItems items' = canonicalItems items
  | [], _, _, rfl => rfl
  | _ :: _, _, ⟨hi, his⟩, ⟨_, _, rfl, h, hs⟩ =>
    congrArg₂ List.cons (canonical_reordered hi h) (canonicalItems_reordered his hs)

theorem canonicalFields_reordered (into : List (String × Json)) :
    ∀ {fields fields' : List (String × Json)}, FieldsAreValues fields →
      FieldsReordered fields fields' → canonicalFields into fields' = canonicalFields into fields
  | [], _, _, rfl => rfl
  | (_, _) :: _, _, ⟨hi, his⟩, ⟨_, _, rfl, h, hs⟩ => by
    rw [canonicalFields, canonicalFields, canonical_reordered hi h, canonicalFields_reordered _ his hs]

end

theorem canonical_eq_null : j.canonical = null ↔ j = null := by
  cases j <;> simp [canonical]

end Workflow.Json

namespace Workflow

open Json (IsSorted)

variable {i j : Json}

/-- What is read of free data is sorted, and sorted data is reread as it is. -/
theorem Codec.json_read_isSorted (h : json.read j = .ok i) : i.IsSorted := by
  simp only [json] at h
  split at h
  · cases h
    exact Json.canonical_isSorted (by assumption)
  · cases h

theorem Codec.json_read_ne_null (hj : j ≠ .null) (h : json.read j = .ok i) : i ≠ .null := by
  simp only [json] at h
  split at h
  · cases h
    exact fun heq => hj (Json.canonical_eq_null.mp heq)
  · cases h

theorem Codec.json_rereads (h : j.IsSorted) : json.Rereads j j where
  isValue := h.isValue
  read {j'} hj := by
    have hreadable : j'.readable := (Json.readable_reordered hj).trans h.readable
    have hcanonical : j'.canonical = j := (Json.canonical_reordered h.isValue hj).trans h.canonical_eq
    simp [json, hreadable, hcanonical]

end Workflow

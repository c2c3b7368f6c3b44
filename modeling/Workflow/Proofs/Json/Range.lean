import Workflow.Proofs.Decimal.Whole
import Workflow.Proofs.Graph.Valid
import Workflow.Proofs.Json.Canonical

/-!
# What is read of values in range

The numbers of a JSON value are whole numbers of 64 bits and finite floats, `InRange`. `Gives` says
what holds of everything that a shape reads of such values: a property of a structure is one that its
fields keep, whichever of them stand there, in whatever order, under which of their names, and
whether they stand in an object or in a list.
-/

namespace Workflow

namespace Json

mutual

/-- The numbers of the value are those that JSON values have: whole numbers of 64 bits, with a sign
or without, and finite floats. -/
def InRange : Json → Prop
  | int n => -2 ^ 63 ≤ n ∧ n < 2 ^ 64
  | float x => x.isFinite
  | arr items => ItemsInRange items
  | obj fields => FieldsInRange fields
  | _ => True

def ItemsInRange : List Json → Prop
  | [] => True
  | j :: js => j.InRange ∧ ItemsInRange js

def FieldsInRange : List (String × Json) → Prop
  | [] => True
  | (_, j) :: fs => j.InRange ∧ FieldsInRange fs

end

variable {items : List Json} {fields : List (String × Json)}

@[simp] theorem inRange_arr : (arr items).InRange ↔ ∀ j ∈ items, j.InRange := by
  have h : ItemsInRange items ↔ ∀ j ∈ items, j.InRange := by
    induction items with
    | nil => simp [ItemsInRange]
    | cons j js ih => simp [ItemsInRange, ih]
  rw [InRange, h]

@[simp] theorem inRange_obj : (obj fields).InRange ↔ ∀ f ∈ fields, f.2.InRange := by
  have h : FieldsInRange fields ↔ ∀ f ∈ fields, f.2.InRange := by
    induction fields with
    | nil => simp [FieldsInRange]
    | cons f fs ih => simp [FieldsInRange, ih]
  rw [InRange, h]

end Json

variable {α β : Type}

theorem map_ok {ε : Type} {x : Except ε α} {f : α → β} {b : β} :
    x.map f = .ok b ↔ ∃ a, x = .ok a ∧ f a = b := by
  cases x <;> simp [Except.map]

-- ---------------------------------------------------------------------------
-- Single values and lists
-- ---------------------------------------------------------------------------

/-- Whatever is read of a value in range has the property. -/
def Codec.Gives (c : Codec α) (P : α → Prop) : Prop :=
  ∀ ⦃j a⦄, j.InRange → c.read j = .ok a → P a

namespace Codec

variable {c : Codec α} {P : α → Prop}

theorem gives_true : c.Gives fun _ => True := fun _ _ _ _ => trivial

theorem float_gives : float.Gives fun x => x.isFinite := by
  intro j x hj hread
  cases j with
  | int n =>
    cases hread
    exact Decimal.ofInt_isFinite hj.1 hj.2
  | float x =>
    cases hread
    exact hj
  | _ => cases hread

theorem list_gives (h : c.Gives P) : c.list.Gives fun as => ∀ a ∈ as, P a := by
  intro j as hj hread
  cases j with
  | arr items =>
    have hitems := Json.inRange_arr.mp hj
    change c.readItems items = .ok as at hread
    clear hj
    induction items generalizing as with
    | nil =>
      cases hread
      simp
    | cons i is ih =>
      obtain ⟨hi, his⟩ := List.forall_mem_cons.mp hitems
      simp only [readItems, bind_ok] at hread
      obtain ⟨a, ha, bs, hbs, hread⟩ := hread
      cases hread
      exact List.forall_mem_cons.mpr ⟨h hi ha, ih his hbs⟩
  | _ => cases hread

theorem optional_read_some {j : Json} {a : α} (h : c.optional.read j = .ok (some a)) :
    j ≠ .null ∧ c.read j = .ok a := by
  cases j with
  | null => cases h
  | _ =>
    obtain ⟨b, hread, hb⟩ := map_ok.mp h
    cases hb
    exact ⟨nofun, hread⟩

theorem optional_gives (h : c.Gives P) : c.optional.Gives fun o => ∀ a, o = some a → P a := by
  rintro j _ hj hread a rfl
  exact h hj (optional_read_some hread).2

/-- Free data that is there is not null, since null stands for none. -/
theorem json_optional_gives : json.optional.Gives fun o => ∀ i, o = some i → i.IsSorted ∧ i ≠ .null := by
  rintro j _ - hread i rfl
  obtain ⟨hne, hread⟩ := optional_read_some hread
  exact ⟨json_read_isSorted hread, json_read_ne_null hne hread⟩

end Codec

-- ---------------------------------------------------------------------------
-- Structures
-- ---------------------------------------------------------------------------

/-- Reading the field into a structure with the property gives a structure with the property. -/
def Field.Keeps (f : Field α) (P : α → Prop) : Prop :=
  ∀ ⦃j a b⦄, j.InRange → P a → f.read j a = .ok b → P b

namespace Field

variable {f : Field α} {P : α → Prop} {Q : β → Prop} {name : String} {c : Codec β}

theorem required_keeps {get : α → β} {set : α → β → α} (hc : c.Gives Q)
    (hset : ∀ a v, P a → Q v → P (set a v)) : (required name c get set).Keeps P := by
  intro j a b hj ha hread
  obtain ⟨v, hv, rfl⟩ := map_ok.mp hread
  exact hset a v ha (hc hj hv)

theorem defaulted_keeps {get : α → β} {set : α → β → α} (hc : c.Gives Q)
    (hset : ∀ a v, P a → Q v → P (set a v)) : (defaulted name c get set).Keeps P := by
  intro j a b hj ha hread
  obtain ⟨v, hv, rfl⟩ := map_ok.mp hread
  exact hset a v ha (hc hj hv)

theorem orNamed_keeps {other : String} (h : f.Keeps P) : (f.orNamed other).Keeps P := h

end Field

namespace Record

variable {r : Record α} {P : α → Prop} {seen names : List String} {a b : α} {count : Nat}
variable {fields : List (String × Json)} {items : List Json}

/-- A field that was read: it is unknown and skipped, or it is new and goes into the structure. -/
theorem readFields_cons_ok {k : String} {j : Json}
    (h : r.readFields seen a ((k, j) :: fields) = .ok (names, b)) :
    (r.fields.find? (·.answersTo k) = none ∧ r.readFields seen a fields = .ok (names, b)) ∨
      ∃ f a', r.fields.find? (·.answersTo k) = some f ∧ f.name ∉ seen ∧ f.read j a = .ok a' ∧
        r.readFields (f.name :: seen) a' fields = .ok (names, b) := by
  rw [readFields] at h
  split at h
  · cases h
  split at h
  · rename_i hfind
    split at h
    · exact .inl ⟨hfind, h⟩
    · cases h
  · rename_i f hfind
    split at h
    · cases h
    · rename_i hfresh
      obtain ⟨a', ha', h⟩ := bind_ok.mp h
      exact .inr ⟨f, a', hfind, hfresh, ha', h⟩

theorem readFields_keeps (hkeep : ∀ f ∈ r.fields, f.Keeps P) (hfields : ∀ f ∈ fields, f.2.InRange)
    (ha : P a) (h : r.readFields seen a fields = .ok (names, b)) : P b := by
  induction fields generalizing seen a with
  | nil =>
    cases h
    exact ha
  | cons g gs ih =>
    obtain ⟨k, j⟩ := g
    obtain ⟨hj, hgs⟩ := List.forall_mem_cons.mp hfields
    rcases readFields_cons_ok h with ⟨-, h⟩ | ⟨f, a', hfind, -, ha', h⟩
    · exact ih hgs ha h
    · exact ih hgs (hkeep f (List.mem_of_find?_eq_some hfind) hj ha ha') h

theorem readElements_keeps {fs : List (Field α)} (hkeep : ∀ f ∈ fs, f.Keeps P)
    (hitems : ∀ j ∈ items, j.InRange) (ha : P a) (h : r.readElements count a fs items = .ok b) :
    P b := by
  induction fs generalizing count a items with
  | nil =>
    cases items with
    | nil =>
      cases h
      exact ha
    | cons j js => cases h
  | cons f fs ih =>
    obtain ⟨hf, hfs⟩ := List.forall_mem_cons.mp hkeep
    cases items with
    | nil =>
      simp only [readElements] at h
      split at h
      · cases h
      · exact ih hfs hitems ha h
    | cons j js =>
      obtain ⟨hj, hjs⟩ := List.forall_mem_cons.mp hitems
      obtain ⟨a', ha', h⟩ := bind_ok.mp h
      exact ih hfs hjs (hf hj ha ha') h

/-- A property of a structure that has all defaults, kept by every field, holds of all that is read. -/
theorem gives (hblank : P r.blank) (hkeep : ∀ f ∈ r.fields, f.Keeps P) : r.codec.Gives P := by
  intro j a hj hread
  cases j with
  | obj fields =>
    obtain ⟨⟨names, b⟩, hfields, h⟩ := bind_ok.mp hread
    have hb : P b := readFields_keeps hkeep (Json.inRange_obj.mp hj) hblank hfields
    dsimp only at h
    split at h
    · cases h
    · cases h
      exact hb
  | arr items => exact readElements_keeps hkeep (Json.inRange_arr.mp hj) hblank hread
  | _ => cases hread

end Record

end Workflow

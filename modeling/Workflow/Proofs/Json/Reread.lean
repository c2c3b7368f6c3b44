import Workflow.Graph.Shape
import Workflow.Proofs.Json.Reorder

/-!
# Reading back what was written

`Rereads`: what a shape writes is a value, and reading it gives the expected result in whatever
order the fields stand. A structure is reread field by field: `Draft` follows how reading fills the
structure while the fields come in.
-/

namespace Workflow

variable {α β : Type}

/-- Writing `a` gives a value from which `b` is read, whatever the order of its fields. -/
structure Codec.Rereads (c : Codec α) (a b : α) : Prop where
  isValue : (c.write a).IsValue
  read : ∀ {j}, (c.write a).Reordered j → c.read j = .ok b

namespace Codec

open Json (Reordered)

variable {c : Codec α} {a b : α}

theorem Rereads.direct (h : c.Rereads a b) : c.read (c.write a) = .ok b :=
  h.read (Json.reordered_refl _)

theorem Rereads.sorted (h : c.Rereads a b) : c.read (c.write a).canonical = .ok b :=
  h.read (Json.reordered_canonical h.isValue)

/-- What is written alike, up to the order of fields, is read alike. -/
theorem Rereads.unique {a' b' : α} (h : c.Rereads a b) (h' : c.Rereads a' b')
    (heq : (c.write a).canonical = (c.write a').canonical) : b = b' := by
  have hread := h.sorted
  rw [heq, h'.sorted] at hread
  exact (Except.ok.inj hread).symm

-- ---------------------------------------------------------------------------
-- Shapes of single values and of lists
-- ---------------------------------------------------------------------------

theorem string_rereads (s : String) : string.Rereads s s :=
  ⟨trivial, fun h => by cases h; rfl⟩

theorem bool_rereads (b : Bool) : bool.Rereads b b :=
  ⟨trivial, fun h => by cases h; rfl⟩

theorem float_rereads {x : Float} (hx : x.isFinite) : float.Rereads x x := by
  have hw : float.write x = .float x := if_pos hx
  constructor
  · rw [hw]
    trivial
  · rw [hw]
    rintro _ rfl
    rfl

theorem name_rereads {all : List α} {nameOf : α → String}
    (h : all.find? (nameOf · == nameOf a) = some a) : (name all nameOf).Rereads a a := by
  refine ⟨trivial, ?_⟩
  rintro _ rfl
  simp [name, choose, h]

theorem readItems_ok {clear : α → α} {as : List α} {items : List Json}
    (hc : ∀ a ∈ as, c.Rereads a (clear a)) (h : List.Forall₂ Reordered (as.map c.write) items) :
    c.readItems items = .ok (as.map clear) := by
  induction as generalizing items with
  | nil =>
    cases h
    rfl
  | cons a as ih =>
    obtain ⟨ha, has⟩ := List.forall_mem_cons.mp hc
    obtain ⟨j, js, hj, hjs, rfl⟩ := List.forall₂_cons_left_iff.mp h
    simp only [readItems, ha.read hj, ih has hjs]
    rfl

/-- A list is reread item by item. -/
theorem list_rereads {clear : α → α} {as : List α} (h : ∀ a ∈ as, c.Rereads a (clear a)) :
    c.list.Rereads as (as.map clear) := by
  refine ⟨Json.isValue_arr.mpr (List.forall_mem_map.mpr fun a ha => (h a ha).isValue), ?_⟩
  rintro _ ⟨items, rfl, hitems⟩
  exact readItems_ok h (Json.itemsReordered_iff.mp hitems)

theorem strings_reread (ss : List String) : string.list.Rereads ss ss := by
  have h := list_rereads fun s (_ : s ∈ ss) => string_rereads s
  rwa [List.map_id'] at h

/-- Null is not read as a value. -/
def RefusesNull (c : Codec α) : Prop := ∀ a, c.read .null ≠ .ok a

theorem string_refusesNull : string.RefusesNull := fun _ h => by cases h

theorem bool_refusesNull : bool.RefusesNull := fun _ h => by cases h

theorem float_refusesNull : float.RefusesNull := fun _ h => by cases h

theorem list_refusesNull : c.list.RefusesNull := fun _ h => by cases h

theorem Rereads.write_ne_null (hnull : c.RefusesNull) (h : c.Rereads a b) : c.write a ≠ .null := by
  intro heq
  have hread := h.direct
  rw [heq] at hread
  exact hnull b hread

/-- Null stands for an absent value where no value is written as null. -/
theorem optional_rereads_some (hne : c.write a ≠ .null) (h : c.Rereads a b) :
    c.optional.Rereads (some a) (some b) := by
  refine ⟨h.isValue, fun {j} hj => ?_⟩
  have hread := h.read hj
  cases j with
  | null => exact absurd rfl (hj.ne_null hne)
  | _ => simp [optional, hread, Except.map]

theorem optional_rereads {o : Option α} (h : ∀ a, o = some a → c.write a ≠ .null ∧ c.Rereads a a) :
    c.optional.Rereads o o := by
  cases o with
  | none =>
    refine ⟨trivial, ?_⟩
    rintro _ rfl
    rfl
  | some a =>
    obtain ⟨hne, ha⟩ := h a rfl
    exact optional_rereads_some hne ha

theorem list_height_lt {as : List α} (ha : a ∈ as) :
    (c.write a).height < (c.list.write as).height :=
  Nat.lt_succ_of_le (Json.height_le_items (List.mem_map_of_mem ha))

theorem list_write_congr {c' : Codec α} {as : List α} (h : ∀ a ∈ as, c.write a = c'.write a) :
    c.list.write as = c'.list.write as := by
  simpa [list] using h

end Codec

-- ---------------------------------------------------------------------------
-- Shapes of structures
-- ---------------------------------------------------------------------------

/-- How a structure is filled while its fields are read: `draft` is what it is once the fields of
the given names are in. Writing `a` gives the field a value from which the draft goes on. -/
structure Field.Fills (f : Field α) (a : α) (draft : List String → α) : Prop where
  required : f.isRequired → (f.write a).isSome
  isValue : ∀ {w}, f.write a = some w → w.IsValue
  read : ∀ {w j seen}, f.write a = some w → w.Reordered j →
    f.read j (draft seen) = .ok (draft (f.name :: seen))

namespace Field

variable {name : String} {c : Codec β} {a : α} {draft : List String → α}

theorem required_fills {get : α → β} {set : α → β → α} {v : β} (hc : c.Rereads (get a) v)
    (hset : ∀ seen, set (draft seen) v = draft (name :: seen)) :
    (required name c get set).Fills a draft where
  required _ := rfl
  isValue hw := by
    cases hw
    exact hc.isValue
  read hw hj := by
    cases hw
    simp [required, hc.read hj, Except.map, hset]

theorem defaulted_fills {get : α → β} {set : α → β → α} {v : β} (hc : c.Rereads (get a) v)
    (hset : ∀ seen, set (draft seen) v = draft (name :: seen)) :
    (defaulted name c get set).Fills a draft where
  required h := by cases h
  isValue hw := by
    cases hw
    exact hc.isValue
  read hw hj := by
    cases hw
    simp [defaulted, hc.read hj, Except.map, hset]

theorem nullable_fills {get : α → Option β} {set : α → Option β → α} (hnull : c.RefusesNull)
    (hc : ∀ v, get a = some v → c.Rereads v v)
    (hset : ∀ seen, set (draft seen) (get a) = draft (name :: seen)) :
    (nullable name c get set).Fills a draft :=
  defaulted_fills (Codec.optional_rereads fun v hv => ⟨(hc v hv).write_ne_null hnull, hc v hv⟩) hset

theorem orNamed_fills {f : Field α} {other : String} (h : f.Fills a draft) :
    (f.orNamed other).Fills a draft :=
  ⟨h.required, h.isValue, h.read⟩

theorem flag_fills {get : α → Bool} {set : α → Bool → α}
    (hset : get a → ∀ seen, set (draft seen) true = draft (name :: seen)) :
    (flag name get set).Fills a draft where
  required h := by cases h
  isValue hw := by
    simp only [flag, Option.ite_none_right_eq_some, Option.some.injEq] at hw
    obtain ⟨-, rfl⟩ := hw
    trivial
  read hw hj := by
    simp only [flag, Option.ite_none_right_eq_some, Option.some.injEq] at hw
    obtain ⟨ha, rfl⟩ := hw
    cases hj
    simp [flag, Codec.bool, Except.map, hset ha]

theorem omitted_fills {get : α → Option β} {set : α → Option β → α} {clear : β → β}
    (hnull : c.RefusesNull) (hc : ∀ v, get a = some v → c.Rereads v (clear v))
    (hset : ∀ v, get a = some v → ∀ seen, set (draft seen) (some (clear v)) = draft (name :: seen)) :
    (omitted name c get set).Fills a draft where
  required h := by cases h
  isValue hw := by
    obtain ⟨v, hv, rfl⟩ := Option.map_eq_some_iff.mp hw
    exact (hc v hv).isValue
  read hw hj := by
    obtain ⟨v, hv, rfl⟩ := Option.map_eq_some_iff.mp hw
    have hread := (Codec.optional_rereads_some ((hc v hv).write_ne_null hnull) (hc v hv)).read hj
    simp [omitted, hread, Except.map, hset v hv]

/-- A value that is left out where it is absent stands in the draft once its field is in. -/
theorem ite_omitted {o : Option β} {seen : List String} (h : o.isSome → name ∈ seen) :
    (if name ∈ seen then o else none) = o := by
  cases o <;> simp_all

end Field

namespace Record

variable {r : Record α} {f : Field α} {a b : α} {draft : List String → α} {k : String}
variable {j : Json} {seen : List String} {gs : List (String × Json)}

theorem refusesNull (r : Record α) : r.codec.RefusesNull := fun _ h => by cases h

/-- No field answers to the name of one behind it. -/
def Unambiguous (r : Record α) : Prop :=
  r.fields.Pairwise fun f g => f.answersTo g.name = false

theorem Unambiguous.find (h : r.Unambiguous) (hf : f ∈ r.fields) :
    r.fields.find? (·.answersTo f.name) = some f := by
  unfold Unambiguous at h
  generalize r.fields = fields at h hf
  induction fields with
  | nil => cases hf
  | cons g fs ih =>
    obtain ⟨hg, hfs⟩ := List.pairwise_cons.mp h
    rcases List.mem_cons.mp hf with rfl | hf
    · simp [Field.answersTo]
    · rw [List.find?_cons_of_neg (by simp [hg f hf]), ih hfs hf]

/-- What is written of a structure, field by field. -/
def written (r : Record α) (a : α) : List (String × Json) :=
  r.fields.filterMap fun f => (f.write a).map (f.name, ·)

theorem mem_written : (k, j) ∈ r.written a ↔ ∃ f ∈ r.fields, f.name = k ∧ f.write a = some j := by
  simp [written, List.mem_filterMap]
  grind

/-- Two records write alike what their fields write alike. -/
theorem write_congr {r' : Record α} (h : r.fields.map (fun f => (f.name, f.write a)) =
    r'.fields.map fun f => (f.name, f.write a)) : r.write a = r'.write a := by
  have hw : ∀ r : Record α, r.write a =
      .obj ((r.fields.map fun f => (f.name, f.write a)).filterMap fun (k, w) => w.map (k, ·)) :=
    fun r => by rw [List.filterMap_map]; rfl
  rw [hw, hw, h]

/-- What is written of a field lies inside what is written of the structure. -/
theorem height_lt (h : (k, j) ∈ r.written a) : j.height < (r.write a).height :=
  Nat.lt_succ_of_le (Json.height_le_fields h)

theorem Unambiguous.keys_nodup (h : r.Unambiguous) : ((r.written a).map (·.1)).Nodup := by
  rw [written, List.map_filterMap]
  refine List.Pairwise.filterMap _ (fun f g hfg k hk k' hk' => ?_) h
  simp only [Option.map_map, Option.map_eq_some_iff] at hk hk'
  obtain ⟨_, -, rfl⟩ := hk
  obtain ⟨_, -, rfl⟩ := hk'
  rintro (heq : f.name = g.name)
  simp [Field.answersTo, heq] at hfg

/-- Fields that come in, whatever their order, fill the draft. -/
theorem readFields_ok (hr : r.Unambiguous) (hfill : ∀ f ∈ r.fields, f.Fills a draft)
    (hgs : ∀ k j, (k, j) ∈ gs → ∃ w, (k, w) ∈ r.written a ∧ w.Reordered j)
    (hd : (gs.map (·.1)).Nodup) (hseen : ∀ k ∈ gs.map (·.1), k ∉ seen) :
    ∃ names, r.readFields seen (draft seen) gs = .ok (names, draft names) ∧
      seen ⊆ names ∧ gs.map (·.1) ⊆ names := by
  -- the draft depends on the names that were seen, so the induction leaves them open
  induction gs generalizing seen with
  | nil => exact ⟨seen, rfl, by simp, by simp⟩
  | cons g gs ih =>
    obtain ⟨k, j⟩ := g
    obtain ⟨w, hmem, hj⟩ := hgs k j List.mem_cons_self
    obtain ⟨f, hf, rfl, hw⟩ := mem_written.mp hmem
    obtain ⟨hk, hd⟩ := List.nodup_cons.mp hd
    obtain ⟨hfresh, hseen⟩ := List.forall_mem_cons.mp hseen
    have hkeyed : j.isKeyed := hj.isKeyed.trans ((hfill f hf).isValue hw).isKeyed
    have hrest : ∀ k ∈ gs.map (·.1), k ∉ f.name :: seen := by
      rintro k hk' (_ | ⟨_, h⟩)
      · exact hk hk'
      · exact hseen k hk' h
    obtain ⟨names, hread, hsub, hkeys⟩ :=
      ih (fun k j h => hgs k j (List.mem_cons_of_mem _ h)) hd hrest
    obtain ⟨hname, hsub⟩ := List.cons_subset.mp hsub
    refine ⟨names, ?_, hsub, List.cons_subset.mpr ⟨hname, hkeys⟩⟩
    simpa [readFields, hkeyed, hr.find hf, hfresh, (hfill f hf).read hw hj, bind, Except.bind]
      using hread

/-- A structure is reread if every field fills its draft and the draft is whole in the end. -/
theorem rereads (draft : List String → α) (hr : r.Unambiguous) (hstart : draft [] = r.blank)
    (hfill : ∀ f ∈ r.fields, f.Fills a draft)
    (hwhole : ∀ seen, (∀ f ∈ r.fields, (f.write a).isSome → f.name ∈ seen) → draft seen = b) :
    r.codec.Rereads a b := by
  constructor
  · refine Json.isValue_obj.mpr ⟨hr.keys_nodup, fun (k, w) hg => ?_⟩
    obtain ⟨f, hf, -, hw⟩ := mem_written.mp hg
    exact (hfill f hf).isValue hw
  · rintro _ ⟨gs, moved, rfl, hgs, hp⟩
    have hkeys : (moved.map (·.1)).Perm ((r.written a).map (·.1)) :=
      (hp.symm.map _).trans (.of_eq hgs.keys)
    obtain ⟨names, hread, -, hsub⟩ := readFields_ok hr hfill
      (fun k j => Json.mem_of_reordered hgs hp) (hkeys.nodup_iff.mpr hr.keys_nodup)
      fun _ _ => List.not_mem_nil
    have hall : ∀ f ∈ r.fields, (f.write a).isSome → f.name ∈ names := by
      intro f hf hsome
      obtain ⟨w, hw⟩ := Option.isSome_iff_exists.mp hsome
      exact hsub (hkeys.symm.subset (List.mem_map_of_mem (mem_written.mpr ⟨f, hf, rfl, hw⟩)))
    -- a required field is always written, so none is missing from the object
    have hnone : r.fields.find? (fun f => f.isRequired && !names.contains f.name) = none := by
      refine List.find?_eq_none.mpr fun f hf => ?_
      have := fun h => hall f hf ((hfill f hf).required h)
      simpa using this
    rw [hstart] at hread
    simp only [codec, read, hread, bind, Except.bind, hnone, hwhole _ hall]

end Record

/-- What is written of a fit value is read back, in whatever order its fields stand, but for what
`clear` takes away. Nothing else can differ between two values that are written alike. -/
structure Codec.Preserves (c : Codec α) (Fit : α → Prop) (clear : α → α) : Prop where
  direct : ∀ a, Fit a → c.read (c.write a) = .ok (clear a)
  sorted : ∀ a, Fit a → c.read (c.write a).canonical = .ok (clear a)
  reordered : ∀ a, Fit a → ∀ j, (c.write a).Reordered j → c.read j = .ok (clear a)
  unique : ∀ a b, Fit a → Fit b → (c.write a).canonical = (c.write b).canonical → clear a = clear b

theorem Codec.preserves {c : Codec α} {Fit : α → Prop} {clear : α → α}
    (h : ∀ a, Fit a → c.Rereads a (clear a)) : c.Preserves Fit clear where
  direct a ha := (h a ha).direct
  sorted a ha := (h a ha).sorted
  reordered a ha _ hj := (h a ha).read hj
  unique a b ha hb := (h a ha).unique (h b hb)

/-- A shape for each depth rereads a value if all that are deep enough do, and if they all write it
alike and with as many containers in one another as there are levels. -/
theorem Codec.deep_rereads {shape : Nat → Codec α} {height : α → Nat} {a b : α}
    (hread : ∀ depth, height a ≤ depth → (shape depth).Rereads a b)
    (hwrite : ∀ depth, height a ≤ depth → (shape depth).write a = (deep shape height).write a)
    (hheight : height a ≤ ((deep shape height).write a).height + 1) :
    (deep shape height).Rereads a b := by
  refine ⟨(hread _ (Nat.le_refl _)).isValue, fun {j} hj => (hread (j.height + 1) ?_).read ?_⟩
  · rwa [Json.height_reordered hj]
  · rwa [hwrite]
    rwa [Json.height_reordered hj]

end Workflow

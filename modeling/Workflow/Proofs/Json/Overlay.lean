import Workflow.Proofs.Json.Canonical
import Workflow.Proofs.Json.Range

/-!
# Values laid over others

What a value says after another one was laid over it: under each key of an object the value on top,
or what lay there. A structure that is read of it depends on the fields under its own keys only,
`read_congr`, and takes each of them from where it stands, `Overrides`.
-/

namespace Workflow

namespace Json

variable {b o v w j : Json} {bs os fs : List (String × Json)} {key k : String}

-- ---------------------------------------------------------------------------
-- Looking up
-- ---------------------------------------------------------------------------

theorem lookup_cons : lookup key ((k, v) :: fs) = if k = key then some v else lookup key fs := rfl

theorem lookup_insertField :
    lookup key (insertField k v fs) = if k = key then some v else lookup key fs := by
  induction fs with
  | nil => rfl
  | cons f fs ih =>
    obtain ⟨k', w⟩ := f
    simp only [insertField]
    split
    · rfl
    · split
      · rename_i heq
        subst heq
        simp only [lookup_cons]
        split <;> rfl
      · rename_i hne
        simp only [lookup_cons, ih]
        split
        · rename_i hkey
          subst hkey
          rw [if_neg hne]
        · rfl

theorem lookup_eq_none : lookup key fs = none ↔ key ∉ fs.map (·.1) := by
  induction fs with
  | nil => simp [lookup]
  | cons f fs ih =>
    rw [lookup_cons]
    split <;> simp_all [eq_comm]

theorem mem_of_lookup (h : lookup key fs = some v) : (key, v) ∈ fs := by
  induction fs with
  | nil => cases h
  | cons f fs ih =>
    rw [lookup_cons] at h
    split at h
    · rename_i hkey
      cases h
      exact hkey ▸ List.mem_cons_self
    · exact List.mem_cons_of_mem _ (ih h)

theorem lookup_filter {p : String → Bool} (hp : p key) :
    lookup key (fs.filter (p ·.1)) = lookup key fs := by
  induction fs with
  | nil => rfl
  | cons f fs ih =>
    obtain ⟨k, v⟩ := f
    rw [List.filter_cons, lookup_cons]
    split
    · rw [lookup_cons, ih]
    · rename_i hk
      rw [ih, if_neg]
      rintro rfl
      exact hk hp

theorem lookup_map {f : String → Json → Json} :
    lookup key (fs.map fun (k, v) => (k, f k v)) = (lookup key fs).map (f key) := by
  induction fs with
  | nil => rfl
  | cons g fs ih =>
    obtain ⟨k, v⟩ := g
    rw [List.map_cons, lookup_cons, lookup_cons, ih]
    split
    · rename_i hk
      rw [hk]
      rfl
    · rfl

-- ---------------------------------------------------------------------------
-- Laying over
-- ---------------------------------------------------------------------------

/-- A value that is no object replaces what it is laid over, and so does one over no object. -/
theorem overlay_replaces (h : (∀ bs, b ≠ obj bs) ∨ ∀ os, o ≠ obj os) : b.overlay o = o := by
  cases b with
  | obj bs =>
    cases o with
    | obj os => exact (h.elim (fun h => h bs rfl) fun h => h os rfl).elim
    | _ => rfl
  | _ => cases o <;> rfl

theorem lookup_overlayFields (hos : (os.map (·.1)).Nodup) :
    lookup key (overlayFields bs os) =
      match lookup key os with
      | some o => some ((lookup key bs).elim o (·.overlay o))
      | none => lookup key bs := by
  induction os generalizing bs with
  | nil => rfl
  | cons f os ih =>
    obtain ⟨k, o⟩ := f
    obtain ⟨hk, hos⟩ := List.nodup_cons.mp hos
    have hstep : overlayFields bs ((k, o) :: os) =
        overlayFields (insertField k ((lookup k bs).elim o (·.overlay o)) bs) os := by
      rw [overlayFields]
      cases lookup k bs <;> rfl
    rw [hstep, ih hos, lookup_insertField, lookup_cons]
    by_cases hkey : k = key
    · subst hkey
      rw [if_pos rfl, if_pos rfl, lookup_eq_none.mpr hk]
    · rw [if_neg hkey, if_neg hkey]

theorem insertField_isSorted (hfs : (obj fs).IsSorted) (hv : v.IsSorted) :
    (obj (insertField k v fs)).IsSorted := by
  obtain ⟨hkeys, hvalues⟩ := isSorted_obj.mp hfs
  refine isSorted_obj.mpr ⟨insertField_sorted hkeys, fun f hf => ?_⟩
  rcases mem_insertField hf with rfl | hf
  · exact hv
  · exact hvalues f hf

theorem IsSorted.of_lookup (hfs : (obj fs).IsSorted) (h : lookup key fs = some v) : v.IsSorted :=
  (isSorted_obj.mp hfs).2 _ (mem_of_lookup h)

theorem isSorted_cons : (obj ((k, v) :: fs)).IsSorted ↔
    (∀ key ∈ fs.map (·.1), k < key) ∧ v.IsSorted ∧ (obj fs).IsSorted := by
  simp only [isSorted_obj, List.map_cons, List.pairwise_cons, List.forall_mem_cons]
  tauto

mutual

/-- What is sorted stays so when something sorted is laid over it. -/
theorem overlay_isSorted : ∀ {b o : Json}, b.IsSorted → o.IsSorted → (b.overlay o).IsSorted
  | b, obj os, hb, ho => by
    cases b with
    | obj bs => exact overlayFields_isSorted hb ho.2
    | _ => exact ho
  | _, arr _, _, ho | _, null, _, ho | _, bool _, _, ho | _, int _, _, ho | _, float _, _, ho
  | _, str _, _, ho | _, broken, _, ho | _, unreadable _, _, ho | _, unkeyed _, _, ho => by
    rwa [overlay_replaces (.inr (by simp))]

theorem overlayFields_isSorted {bs : List (String × Json)} (hb : (obj bs).IsSorted) :
    ∀ {os : List (String × Json)}, FieldsAreSorted os → (obj (overlayFields bs os)).IsSorted
  | [], _ => hb
  | (k, o) :: os, ⟨ho, hos⟩ => by
    rw [overlayFields]
    split
    · rename_i b hlookup
      have hbo := overlay_isSorted (hb.of_lookup hlookup) ho
      exact overlayFields_isSorted (insertField_isSorted hb hbo) hos
    · exact overlayFields_isSorted (insertField_isSorted hb ho) hos

end

mutual

/-- What can be read can be skipped. -/
theorem skippable_of_readable : ∀ {j : Json}, j.readable → j.skippable
  | arr _, h => skippableItems_of_readable h
  | obj _, h => skippableFields_of_readable h
  | null, _ | bool _, _ | int _, _ | float _, _ | str _, _ => rfl

theorem skippableItems_of_readable : ∀ {items : List Json}, readableItems items →
    skippableItems items
  | [], _ => rfl
  | _ :: _, h => by
    obtain ⟨hj, hjs⟩ := Bool.and_eq_true_iff.mp h
    exact Bool.and_eq_true_iff.mpr ⟨skippable_of_readable hj, skippableItems_of_readable hjs⟩

theorem skippableFields_of_readable : ∀ {fields : List (String × Json)}, readableFields fields →
    skippableFields fields
  | [], _ => rfl
  | _ :: _, h => by
    obtain ⟨hj, hfs⟩ := Bool.and_eq_true_iff.mp h
    exact Bool.and_eq_true_iff.mpr ⟨skippable_of_readable hj, skippableFields_of_readable hfs⟩

end

end Json

-- ---------------------------------------------------------------------------
-- Fields where they stand
-- ---------------------------------------------------------------------------

variable {α β : Type}

/-- What is read of the field of a key, where there is one, takes the place of an old value. -/
def Codec.Overrides (c : Codec β) (key : String) (fields : List (String × Json)) (old new : β) :
    Prop :=
  match Json.lookup key fields with
  | some j => c.read j = .ok new
  | none => new = old

/-- Reading the field sets the value to what the shape reads. -/
def Field.Sets (f : Field α) (c : Codec β) (get : α → β) : Prop :=
  ∀ ⦃j a b⦄, f.read j a = .ok b → c.read j = .ok (get b)

/-- Reading the field leaves the value alone. -/
def Field.Leaves (f : Field α) (get : α → β) : Prop :=
  ∀ ⦃j a b⦄, f.read j a = .ok b → get b = get a

theorem Field.sets_of_read {f : Field α} {c : Codec β} {set : α → β → α} {get : α → β}
    (hread : ∀ j a, f.read j a = (c.read j).map (set a)) (h : ∀ a v, get (set a v) = v) :
    f.Sets c get := by
  intro j a b hb
  rw [hread, map_ok] at hb
  obtain ⟨v, hv, rfl⟩ := hb
  rw [hv, h]

theorem Field.leaves_of_read {γ : Type} {f : Field α} {c : Codec β} {set : α → β → α}
    {get : α → γ} (hread : ∀ j a, f.read j a = (c.read j).map (set a))
    (h : ∀ a v, get (set a v) = get a) : f.Leaves get := by
  intro j a b hb
  rw [hread, map_ok] at hb
  obtain ⟨v, -, rfl⟩ := hb
  exact h a v

namespace Field

variable {γ : Type} {name : String} {c : Codec β} {get' : α → β} {put : α → Option β → α}
variable {set : α → β → α}

@[simp] theorem required_name : (required name c get' set).name = name := rfl

@[simp] theorem defaulted_name : (defaulted name c get' set).name = name := rfl

@[simp] theorem omitted_name {get' : α → Option β} : (omitted name c get' put).name = name := rfl

theorem required_sets {get : α → β} (h : ∀ a v, get (set a v) = v) :
    (required name c get' set).Sets c get :=
  sets_of_read (fun _ _ => rfl) h

theorem defaulted_sets {get : α → β} (h : ∀ a v, get (set a v) = v) :
    (defaulted name c get' set).Sets c get :=
  sets_of_read (fun _ _ => rfl) h

theorem omitted_sets {get get' : α → Option β} (h : ∀ a v, get (put a v) = v) :
    (omitted name c get' put).Sets c.optional get :=
  sets_of_read (fun _ _ => rfl) h

theorem required_leaves {get : α → γ} (h : ∀ a v, get (set a v) = get a) :
    (required name c get' set).Leaves get :=
  leaves_of_read (fun _ _ => rfl) h

theorem defaulted_leaves {get : α → γ} (h : ∀ a v, get (set a v) = get a) :
    (defaulted name c get' set).Leaves get :=
  leaves_of_read (fun _ _ => rfl) h

theorem omitted_leaves {get : α → γ} {get' : α → Option β} (h : ∀ a v, get (put a v) = get a) :
    (omitted name c get' put).Leaves get :=
  leaves_of_read (c := c.optional) (fun _ _ => rfl) h

end Field

/-- What was read of a value laid over another is the value on top, or what was read of the one
below. -/
theorem Codec.Overrides.over {c : Codec β} {key : String} {bs os : List (String × Json)}
    {blank old new : β} (hc : ∀ fs a, c.read (.obj fs) ≠ .ok a) (hos : (os.map (·.1)).Nodup)
    (hbelow : c.Overrides key bs blank old)
    (h : c.Overrides key (Json.overlayFields bs os) blank new) : c.Overrides key os old new := by
  simp only [Overrides, Json.lookup_overlayFields hos] at hbelow h ⊢
  cases ho : Json.lookup key os with
  | none =>
    rw [ho] at h
    cases hb : Json.lookup key bs with
    | none =>
      rw [hb] at hbelow h
      exact h.trans hbelow.symm
    | some b =>
      rw [hb] at hbelow h
      exact (Except.ok.inj (hbelow.symm.trans h)).symm
  | some o =>
    rw [ho] at h
    cases hb : Json.lookup key bs with
    | none => rwa [hb] at h
    | some b =>
      rw [hb] at hbelow h
      have hno : ∀ fs, b ≠ .obj fs := by
        rintro fs rfl
        exact hc fs old hbelow
      have h : c.read (b.overlay o) = .ok new := h
      rwa [Json.overlay_replaces (.inl hno)] at h

namespace Record

variable {r : Record α} {f : Field α} {c : Codec β} {get : α → β} {seen names : List String}
variable {a b : α} {fs gs : List (String × Json)} {k : String} {j : Json}

/-- No field has a second key. -/
def HasOneKeyEach (r : Record α) : Prop := ∀ f ∈ r.fields, f.otherName = none

theorem HasOneKeyEach.name (h : r.HasOneKeyEach) (hf : r.fields.find? (·.answersTo k) = some f) :
    f.name = k := by
  have hname := List.find?_some hf
  simpa [Field.answersTo, h f (List.mem_of_find?_eq_some hf)] using hname

/-- The value is that of the field of a key, and of no other field. -/
structure Owns (r : Record α) (key : String) (c : Codec β) (get : α → β) : Prop where
  found : ∃ f ∈ r.fields, f.name = key
  sets : ∀ f ∈ r.fields, f.name = key → f.Sets c get
  leaves : ∀ f ∈ r.fields, f.name ≠ key → f.Leaves get

/-- A field that was read stands, for it is not read again. -/
theorem readFields_seen (hown : r.Owns k c get) (hseen : k ∈ seen)
    (h : r.readFields seen a fs = .ok (names, b)) : get b = get a := by
  induction fs generalizing seen a with
  | nil =>
    cases h
    rfl
  | cons g fs ih =>
    rcases readFields_cons_ok h with ⟨-, h⟩ | ⟨g, a', hfind, hfresh, ha', h⟩
    · exact ih hseen h
    · have hne : g.name ≠ k := fun heq => hfresh (heq ▸ hseen)
      rw [ih (List.mem_cons_of_mem _ hseen) h,
        hown.leaves g (List.mem_of_find?_eq_some hfind) hne ha']

theorem readFields_overrides (hr : r.HasOneKeyEach) (hu : r.Unambiguous) (hown : r.Owns k c get)
    (h : r.readFields seen a fs = .ok (names, b)) : c.Overrides k fs (get a) (get b) := by
  induction fs generalizing seen a with
  | nil =>
    cases h
    exact rfl
  | cons g fs ih =>
    obtain ⟨k', j⟩ := g
    rw [Codec.Overrides, Json.lookup_cons]
    rcases readFields_cons_ok h with ⟨hfind, hrest⟩ | ⟨g, a', hfind, -, ha', hrest⟩
    · rw [if_neg]
      · exact ih hrest
      · rintro rfl
        obtain ⟨f, hf, rfl⟩ := hown.found
        cases hfind.symm.trans (hu.find hf)
    · have hg := List.mem_of_find?_eq_some hfind
      obtain rfl := hr.name hfind
      by_cases hk : g.name = k
      · rw [if_pos hk, readFields_seen hown (hk ▸ List.mem_cons_self) hrest]
        exact hown.sets g hg hk ha'
      · rw [if_neg hk, ← hown.leaves g hg hk ha']
        exact ih hrest

/-- What an object gives for a field is what stands under its key, or else the default. -/
theorem read_overrides (hr : r.HasOneKeyEach) (hu : r.Unambiguous)
    (h : r.codec.read (.obj fs) = .ok b) (hown : r.Owns k c get) :
    c.Overrides k fs (get r.blank) (get b) := by
  obtain ⟨⟨names, b'⟩, hfields, h⟩ := bind_ok.mp h
  dsimp only at h
  split at h
  · cases h
  · cases h
    exact readFields_overrides hr hu hown hfields

-- ---------------------------------------------------------------------------
-- Keys that are no field's
-- ---------------------------------------------------------------------------

def knows (r : Record α) (key : String) : Bool := r.fields.any (·.answersTo key)

/-- The fields whose keys the record knows. -/
def known (r : Record α) (fields : List (String × Json)) : List (String × Json) :=
  fields.filter (r.knows ·.1)

theorem known_cons :
    r.known ((k, j) :: fs) = if r.knows k then (k, j) :: r.known fs else r.known fs :=
  List.filter_cons

theorem knows_iff : r.knows k ↔ ∃ f, r.fields.find? (·.answersTo k) = some f := by
  rw [← Option.isSome_iff_exists, List.find?_isSome, knows, List.any_eq_true]

theorem find?_eq_none (h : r.knows k = false) : r.fields.find? (·.answersTo k) = none := by
  rw [List.find?_eq_none]
  exact fun f hf => List.any_eq_false.mp h f hf

theorem readFields_cons (hj : j.IsSorted) (hf : r.fields.find? (·.answersTo k) = some f) :
    r.readFields seen a ((k, j) :: fs) =
      if f.name ∈ seen then .error (.duplicateField f.name)
      else f.read j a >>= fun a => r.readFields (f.name :: seen) a fs := by
  rw [readFields, hj.isValue.isKeyed, hf]
  rfl

/-- Keys that are no field's are skipped. -/
theorem readFields_known (hfs : ∀ f ∈ fs, f.2.IsSorted) :
    r.readFields seen a (r.known fs) = r.readFields seen a fs := by
  induction fs generalizing seen a with
  | nil => rfl
  | cons g fs ih =>
    obtain ⟨k, j⟩ := g
    obtain ⟨hj, hfs⟩ := List.forall_mem_cons.mp hfs
    cases hk : r.knows k with
    | false =>
      rw [known_cons, hk, readFields, hj.isValue.isKeyed, find?_eq_none hk]
      simpa [Json.skippable_of_readable hj.readable] using ih hfs
    | true =>
      obtain ⟨f, hf⟩ := knows_iff.mp hk
      rw [known_cons, if_pos hk, readFields_cons hj hf, readFields_cons hj hf]
      simp only [ih hfs]

/-- The two lists have fields under the same keys, and these are read alike. -/
def Alike (r : Record α) (fs gs : List (String × Json)) : Prop :=
  ∀ k f, r.fields.find? (·.answersTo k) = some f →
    (Json.lookup k fs).map f.read = (Json.lookup k gs).map f.read

theorem lookup_known (hk : r.knows k) : Json.lookup k (r.known fs) = Json.lookup k fs :=
  Json.lookup_filter hk

theorem alike_of_lookup (h : ∀ k, r.knows k → Json.lookup k fs = Json.lookup k gs) :
    r.Alike fs gs :=
  fun k f hf => by rw [h k (knows_iff.mpr ⟨f, hf⟩)]

theorem Alike.known (h : r.Alike fs gs) : r.Alike (r.known fs) (r.known gs) := by
  intro k f hf
  rw [lookup_known (knows_iff.mpr ⟨f, hf⟩), lookup_known (knows_iff.mpr ⟨f, hf⟩)]
  exact h k f hf

theorem known_isSorted (h : (Json.obj fs).IsSorted) : (Json.obj (r.known fs)).IsSorted := by
  obtain ⟨hkeys, hvalues⟩ := Json.isSorted_obj.mp h
  exact Json.isSorted_obj.mpr
    ⟨hkeys.sublist (List.filter_sublist.map _), fun f hf => hvalues f (List.mem_of_mem_filter hf)⟩

theorem Alike.symm (h : r.Alike fs gs) : r.Alike gs fs := fun k f hf => (h k f hf).symm

theorem Alike.mem (h : r.Alike fs gs) (hk : r.knows k) (hmem : k ∈ fs.map (·.1)) :
    k ∈ gs.map (·.1) := by
  obtain ⟨f, hf⟩ := knows_iff.mp hk
  by_contra hnot
  have heq := h k f hf
  rw [Json.lookup_eq_none.mpr hnot, Option.map_none, Option.map_eq_none_iff] at heq
  exact Json.lookup_eq_none.mp heq hmem

/-- The sorted fields that a record knows are read in the same order. -/
theorem readFields_alike (hfs : (Json.obj fs).IsSorted) (hgs : (Json.obj gs).IsSorted)
    (hfk : ∀ k ∈ fs.map (·.1), r.knows k) (hgk : ∀ k ∈ gs.map (·.1), r.knows k)
    (h : r.Alike fs gs) : r.readFields seen a fs = r.readFields seen a gs := by
  induction fs generalizing gs seen a with
  | nil =>
    cases gs with
    | nil => rfl
    | cons g gs => simpa using h.symm.mem (hgk g.1 List.mem_cons_self) List.mem_cons_self
  | cons x fs ih =>
    obtain ⟨k, j⟩ := x
    cases gs with
    | nil => simpa using h.mem (hfk k List.mem_cons_self) List.mem_cons_self
    | cons y gs =>
      obtain ⟨k', j'⟩ := y
      obtain ⟨hfirst, hj, hfs⟩ := Json.isSorted_cons.mp hfs
      obtain ⟨hfirst', hj', hgs'⟩ := Json.isSorted_cons.mp hgs
      obtain ⟨hk, hfk⟩ := List.forall_mem_cons.mp hfk
      obtain ⟨hk', hgk'⟩ := List.forall_mem_cons.mp hgk
      -- Each first key stands in the other list too, and nothing stands before a first key.
      obtain rfl : k = k' := by
        by_contra hne
        have hmem : k ∈ gs.map (·.1) :=
          (List.mem_cons.mp (h.mem hk List.mem_cons_self)).resolve_left hne
        have hmem' : k' ∈ fs.map (·.1) :=
          (List.mem_cons.mp (h.symm.mem hk' List.mem_cons_self)).resolve_left (Ne.symm hne)
        exact lt_asymm (hfirst k' hmem') (hfirst' k hmem)
      obtain ⟨f, hf⟩ := knows_iff.mp hk
      have hread : f.read j = f.read j' := by simpa [Json.lookup_cons] using h k f hf
      have hrest : r.Alike fs gs := by
        intro key g hg
        by_cases hkey : k = key
        · subst hkey
          rw [Json.lookup_eq_none.mpr fun hmem => lt_irrefl _ (hfirst k hmem),
            Json.lookup_eq_none.mpr fun hmem => lt_irrefl _ (hfirst' k hmem)]
        · simpa [Json.lookup_cons, hkey] using h key g hg
      rw [readFields_cons hj hf, readFields_cons hj' hf, hread]
      simp only [ih hfs hgs' hfk hgk' hrest]

/-- Two maps are read alike if they are alike under the keys that the record knows. -/
theorem read_congr (hfs : (Json.obj fs).IsSorted) (hgs : (Json.obj gs).IsSorted)
    (h : r.Alike fs gs) : r.codec.read (.obj fs) = r.codec.read (.obj gs) := by
  have hknown (fs : List (String × Json)) : ∀ k ∈ (r.known fs).map (·.1), r.knows k := by
    intro k hk
    obtain ⟨f, hf, rfl⟩ := List.mem_map.mp hk
    exact (List.mem_filter.mp hf).2
  have hfields : r.readFields [] r.blank fs = r.readFields [] r.blank gs := by
    rw [← readFields_known (Json.isSorted_obj.mp hfs).2,
      ← readFields_known (Json.isSorted_obj.mp hgs).2]
    exact readFields_alike (known_isSorted hfs) (known_isSorted hgs) (hknown fs) (hknown gs) h.known
  simp only [codec, read, hfields]

/-- Fields that the record does not know have no effect when they are laid over a value. -/
theorem read_overlay_known {below : Json} (hbelow : below.IsSorted) (hfs : (Json.obj fs).IsSorted) :
    r.codec.read (below.overlay (.obj (r.known fs))) = r.codec.read (below.overlay (.obj fs)) := by
  have hknown := known_isSorted (r := r) hfs
  cases below with
  | obj bs =>
    refine read_congr (Json.overlayFields_isSorted hbelow hknown.2)
      (Json.overlayFields_isSorted hbelow hfs.2) (alike_of_lookup fun k hk => ?_)
    rw [Json.lookup_overlayFields (hknown.1.imp fun h => h.ne),
      Json.lookup_overlayFields (hfs.1.imp fun h => h.ne), lookup_known hk]
  | _ => exact read_congr hknown hfs (alike_of_lookup fun k hk => lookup_known hk)

end Record

end Workflow

import Std.Data.HashMap.Lemmas
import Workflow.Files.Tree

/-!
# What changes of a tree keep

Following a path takes directories only, so a path leads to the same place in every tree that has
at least the same directories (`walk_keeps`). Making directories and touching a file only add to
the tree; writing and renaming put a file where there is no directory.
-/

namespace Workflow

variable {fs fs' fs₁ : Files} {p q : FilePath} {place place' here : List String} {pieces : List String}
variable {e : Entry} {text : String} {someMissing : Bool}

namespace Files

@[simp] theorem content?_nil : fs.content? [] = some .directory := rfl

@[simp] theorem content?_empty : ({} : Files).content? place = if place = [] then some .directory else none := by
  simp [content?]

theorem content?_put (h : place ≠ []) :
    (fs.put place e).content? place' = if place' = place then some e else fs.content? place' := by
  by_cases hp : place' = []
  · subst hp
    simp [h.symm]
  · by_cases heq : place = place'
    · subst heq
      simp [content?, put, hp]
    · simp [content?, put, hp, Std.HashMap.getElem?_insert, heq, Ne.symm heq]

theorem content?_erase (h : place ≠ []) :
    (fs.erase place).content? place' = if place' = place then none else fs.content? place' := by
  by_cases hp : place' = []
  · subst hp
    simp [h.symm]
  · by_cases heq : place = place'
    · subst heq
      simp [content?, erase, hp]
    · simp [content?, erase, hp, Std.HashMap.getElem?_erase, heq, Ne.symm heq]

/-- Only the root has no name, and it is a directory. -/
theorem ne_nil_of_content? (h : fs.content? place ≠ some .directory) : place ≠ [] := by
  rintro rfl
  exact h rfl

-- ---------------------------------------------------------------------------
-- Trees with at least the same directories
-- ---------------------------------------------------------------------------

def KeepsDirectories (fs fs' : Files) : Prop :=
  ∀ place, fs.content? place = some .directory → fs'.content? place = some .directory

/-- Whatever is in the first tree is in the second one too. -/
def Extends (fs fs' : Files) : Prop :=
  ∀ place e, fs.content? place = some e → fs'.content? place = some e

theorem Extends.refl : fs.Extends fs := fun _ _ h => h

theorem Extends.trans (h : fs.Extends fs₁) (h' : fs₁.Extends fs') : fs.Extends fs' :=
  fun place e he => h' place e (h place e he)

theorem Extends.keeps (h : fs.Extends fs') : fs.KeepsDirectories fs' := fun place => h place _

theorem walk_keeps (h : fs.KeepsDirectories fs') (hw : fs.walk here pieces = .ok place) :
    fs'.walk here pieces = .ok place := by
  induction pieces generalizing here with
  | nil => exact hw
  | cons piece pieces ih =>
    simp only [walk] at hw ⊢
    split at hw
    · rename_i hd
      rw [h _ hd]
      split at hw
      · cases hw
      · rename_i hlong
        simpa [hlong] using ih hw
    · cases hw
    · cases hw

theorem locate_keeps (h : fs.KeepsDirectories fs') (hl : fs.locate p = .ok place) :
    fs'.locate p = .ok place := by
  simp only [locate] at hl ⊢
  split at hl
  · cases hl
  · exact walk_keeps h hl

theorem fault?_eq_none (h : '\x00' ∉ p.text.toList ∧ p.text ≠ "" ∧ p.text.utf8ByteSize ≤ longestPath) :
    fault? p = none := by
  simp [fault?, String.contains_char_eq, h]

/-- The text names one entry of a directory, whatever the tree. -/
def IsName (name : String) : Prop :=
  ('/' ∉ name.toList ∧ '\x00' ∉ name.toList) ∧ name ∉ ["", ".", ".."] ∧
    name.utf8ByteSize ≤ longestName

instance (name : String) : Decidable (IsName name) := inferInstanceAs (Decidable (_ ∧ _ ∧ _))

theorem pieces_name {name : String} (h : IsName name) : FilePath.pieces ⟨here, name⟩ = [name] := by
  simp [FilePath.pieces, List.splitOn_eq_singleton h.1.1]

/-- A path of one name leads to that name in every tree. -/
theorem locate_name {name : String} (h : IsName name) (fs : Files) :
    fs.locate ⟨[], name⟩ = .ok [name] := by
  have hpieces : FilePath.pieces ⟨[], name⟩ = [name] := pieces_name h
  obtain ⟨⟨-, hzero⟩, hspecial, hlong⟩ := h
  simp only [List.mem_cons, List.not_mem_nil, or_false, not_or] at hspecial
  have hfault : fault? ⟨[], name⟩ = none :=
    fault?_eq_none ⟨hzero, hspecial.1, Nat.le_trans hlong (by decide)⟩
  have horigin : FilePath.origin ⟨[], name⟩ = [] := by simp [FilePath.origin]
  have hplain : FilePath.follow [] name = [name] := by
    simp [FilePath.follow, FilePath.isIdle, hspecial]
  simp [Files.locate, hfault, horigin, hpieces, walk, Nat.not_lt.mpr hlong, hplain]

theorem find_ok : fs.find p = .ok e ↔ ∃ place, fs.locate p = .ok place ∧ fs.content? place = some e := by
  cases hl : fs.locate p with
  | error err => simp [find, hl, bind, Except.bind]
  | ok place => cases he : fs.content? place <;> simp [find, hl, he, bind, Except.bind]

theorem find_extends (h : fs.Extends fs') (hf : fs.find p = .ok e) : fs'.find p = .ok e := by
  obtain ⟨place, hl, he⟩ := find_ok.mp hf
  exact find_ok.mpr ⟨place, locate_keeps h.keeps hl, h place e he⟩

theorem has_iff : fs.has p ↔ ∃ e, fs.find p = .ok e := by
  cases h : fs.find p <;> simp [has, h, Except.toOption]

theorem extends_put (h : fs.content? place = none) : fs.Extends (fs.put place e) := by
  have hne : place ≠ [] := by
    rintro rfl
    cases h
  intro place' e' he
  rw [content?_put hne, if_neg]
  · exact he
  · rintro rfl
    simp [h] at he

theorem put_keeps (h : fs.content? place ≠ some .directory) : fs.KeepsDirectories (fs.put place e) := by
  intro place' hd
  rw [content?_put (ne_nil_of_content? h), if_neg]
  · exact hd
  · rintro rfl
    exact h hd

/-- A path that led to nothing leads to nothing but a file that was put into the tree. -/
theorem find_put_missing (hmissing : fs.content? place = none) (hp : fs.has p = false)
    (h : (fs.put place (.file text)).find p = .ok e) : e = .file text := by
  have hne : place ≠ [] := by
    rintro rfl
    cases hmissing
  obtain ⟨place', hl, he⟩ := find_ok.mp h
  rw [content?_put hne] at he
  by_cases heq : place' = place
  · simpa [heq, eq_comm] using he
  · have hkeeps : (fs.put place (.file text)).KeepsDirectories fs := by
      intro place hd
      rw [content?_put hne] at hd
      split at hd
      · cases hd
      · exact hd
    rw [if_neg heq] at he
    have hhas : fs.has p := has_iff.mpr ⟨e, find_ok.mpr ⟨place', locate_keeps hkeeps hl, he⟩⟩
    simp [hp] at hhas

-- ---------------------------------------------------------------------------
-- Making directories
-- ---------------------------------------------------------------------------

theorem makeWay_extends : fs.Extends (fs.makeWay someMissing here pieces).2 := by
  induction pieces generalizing fs someMissing here with
  | nil => exact .refl
  | cons piece pieces ih =>
    simp only [makeWay]
    split
    · exact .refl
    · split
      · exact ih
      · exact .refl
      · rename_i hmissing
        exact (extends_put hmissing).trans ih

theorem makeDirectories_extends : fs.Extends (fs.makeDirectories p).2 := by
  simp only [makeDirectories]
  split
  · exact .refl
  · split
    · exact .refl
    · split
      · exact makeWay_extends
      · split
        · have hway : fs.Extends (fs.makeWay false p.origin p.above).2 := makeWay_extends
          split
          · rename_i heq
            rwa [heq] at hway
          · exact hway
        · exact .refl

-- ---------------------------------------------------------------------------
-- Writing and moving files
-- ---------------------------------------------------------------------------

theorem write_ok (h : fs.write p e = .ok fs') : ∃ place, fs.locate p = .ok place ∧
    fs.content? place ≠ some .directory ∧ fs' = fs.put place e := by
  simp only [write, bind, Except.bind] at h
  split at h
  · cases h
  · rename_i place hl
    split at h
    · cases h
    · rename_i hd
      exact ⟨place, hl, hd, (Except.ok.inj h).symm⟩

theorem write_of_locate (hl : fs.locate p = .ok place) (hd : fs.content? place ≠ some .directory) :
    fs.write p e = .ok (fs.put place e) := by
  simp [write, hl, bind, Except.bind]

theorem find_write (h : fs.write p e = .ok fs') : fs'.find p = .ok e := by
  obtain ⟨place, hl, hd, rfl⟩ := write_ok h
  exact find_ok.mpr ⟨place, locate_keeps (put_keeps hd) hl, by simp [content?_put (ne_nil_of_content? hd)]⟩

theorem touch_missing (hl : fs.locate p = .ok place) (h : fs.content? place = none) :
    fs.touch p = .ok (fs.put place (.file "")) := by
  have hfind : fs.find p = .error .notFound := by simp [find, hl, h, bind, Except.bind]
  simp only [touch, hfind]
  exact write_of_locate hl (by simp [h])

/-- A file is created where there was nothing, or it was there before. -/
theorem touch_ok (h : fs.touch p = .ok fs') :
    fs' = fs ∨ ∃ place, fs.content? place = none ∧ fs' = fs.put place (.file "") := by
  simp only [touch] at h
  split at h
  · cases h
  · exact .inl (Except.ok.inj h).symm
  · rename_i hmissing
    obtain ⟨place, hl, -, rfl⟩ := write_ok h
    refine .inr ⟨place, ?_, rfl⟩
    cases he : fs.content? place with
    | none => rfl
    | some e =>
      rw [find_ok.mpr ⟨place, hl, he⟩] at hmissing
      cases hmissing
  · cases h

end Files

namespace FilePath

/-- A path that does not end in a slash has no blank pieces at its end. -/
theorem unslashed_of_getLast? (h : pieces.getLast? ≠ some "") : unslashed pieces = pieces := by
  cases pieces with
  | nil => rfl
  | cons first pieces =>
    simp only [unslashed, trimEnd, List.take_succ_cons, List.take_zero, List.drop_succ_cons,
      List.drop_zero]
    cases hlast : pieces.reverse with
    | nil => simp_all
    | cons last front =>
      have hp : pieces = front.reverse ++ [last] := by
        rw [← List.reverse_reverse pieces, hlast, List.reverse_cons]
      subst hp
      rw [← List.cons_append, List.getLast?_concat] at h
      have hne : (last == "") = false := by simpa using h
      simp [hne]

end FilePath

theorem Files.rename_of_locate (hq : fs.locate q = .ok place) (he : fs.content? place = some e)
    (hp : fs.locate p = .ok place') (hslash : p.pieces.getLast? ≠ some "")
    (hd : fs.content? place' ≠ some .directory) :
    fs.rename q p = .ok ((fs.erase place).put place' e) := by
  have hfind : fs.find q = .ok e := find_ok.mpr ⟨place, hq, he⟩
  simp only [locate] at hp
  cases hfault : fault? p with
  | some fault => simp [hfault] at hp
  | none =>
    simp only [hfault] at hp
    simp [rename, hq, hfind, hfault, FilePath.unslashed_of_getLast? hslash, hp, hslash, bind,
      Except.bind]

/-- A file that was moved stands at its new path. -/
theorem Files.find_rename (h : fs.rename q p = .ok fs') (hq : fs.find q = .ok (.file text)) :
    fs'.find p = .ok (.file text) := by
  obtain ⟨source, hsource, hentry⟩ := find_ok.mp hq
  simp only [rename, hsource, hq, bind, Except.bind] at h
  cases hfault : fault? p with
  | some fault => simp [hfault, throw, throwThe, MonadExceptOf.throw] at h
  | none =>
    cases htarget : fs.walk p.origin (FilePath.unslashed p.pieces) with
    | error e => simp [hfault, htarget] at h
    | ok target =>
      by_cases hslash : p.pieces.getLast? = some ""
      · simp [hfault, htarget, hslash, throw, throwThe, MonadExceptOf.throw] at h
      · simp [hfault, htarget, hslash] at h
        split at h
        · cases h
        · rename_i hd
          obtain rfl := Except.ok.inj h
          have hne : target ≠ [] := ne_nil_of_content? hd
          have hne' : source ≠ [] := by
            rintro rfl
            cases hentry
          have hkeeps : fs.KeepsDirectories ((fs.erase source).put target (.file text)) := by
            intro place hdir
            have hsource : place ≠ source := by
              rintro rfl
              simp [hentry] at hdir
            have htarget : place ≠ target := by
              rintro rfl
              exact hd hdir
            rwa [content?_put hne, if_neg htarget,
              content?_erase hne', if_neg hsource]
          rw [FilePath.unslashed_of_getLast? hslash] at htarget
          refine find_ok.mpr ⟨target, ?_, by rw [content?_put hne, if_pos rfl]⟩
          simp only [locate, hfault]
          exact walk_keeps hkeeps htarget

end Workflow

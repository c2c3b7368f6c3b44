import Mathlib.Data.List.DropRight
import Workflow.Text.Blank

/-!
# Trimmed text stays as it is

Trimming takes a text's front and back off in either order, so it is the same from both ends
(`trimBy_reverse`). It goes on until neither end is in the class (`bare_trimBy`), and leaves a text
alone exactly if neither was (`trimBy_eq_self`).
-/

namespace Workflow.Text

variable {p : Char → Bool} {cs cs' front back : List Char} {c : Char}

-- ---------------------------------------------------------------------------
-- Taking off the front
-- ---------------------------------------------------------------------------

theorem dropWhile_eq_self : cs.dropWhile p = cs ↔ ∀ c ∈ cs.head?, p c = false := by
  rw [List.dropWhile_eq_self_iff]
  cases cs <;> simp

theorem rdropWhile_eq_self : cs.rdropWhile p = cs ↔ ∀ c ∈ cs.getLast?, p c = false := by
  rw [List.rdropWhile_eq_self_iff]
  rcases List.eq_nil_or_concat cs with rfl | ⟨cs, c, rfl⟩ <;> simp

theorem head_dropWhile (p : Char → Bool) (cs : List Char) :
    ∀ c ∈ (cs.dropWhile p).head?, p c = false :=
  dropWhile_eq_self.mp (List.dropWhile_idempotent p cs)

theorem dropWhile_split (p : Char → Bool) (cs : List Char) :
    ∃ front, cs = front ++ cs.dropWhile p ∧ ∀ c ∈ front, p c = true :=
  ⟨cs.takeWhile p, List.takeWhile_append_dropWhile.symm, fun _ h => List.mem_takeWhile_imp h⟩

theorem dropWhile_run (hfront : ∀ c ∈ front, p c = true) (hcs : ∀ c ∈ cs.head?, p c = false) :
    (front ++ cs).dropWhile p = cs := by
  rw [List.dropWhile_append_of_pos hfront, dropWhile_eq_self.mpr hcs]

theorem dropWhile_isPrefix (h : cs <+: cs') : cs.dropWhile p <+: cs'.dropWhile p := by
  obtain ⟨rest, rfl⟩ := h
  rw [List.dropWhile_append]
  split
  · rename_i hnil
    rw [List.isEmpty_iff.mp hnil]
    exact List.nil_prefix
  · exact List.prefix_append _ _

theorem rdropWhile_cons : (c :: cs).rdropWhile p =
    if cs.rdropWhile p = [] ∧ p c = true then [] else c :: cs.rdropWhile p := by
  simp only [List.rdropWhile, List.reverse_cons, List.dropWhile_append]
  by_cases hc : p c <;> by_cases hcs : cs.reverse.dropWhile p = [] <;> simp [hc, hcs]

theorem dropWhile_rdropWhile (cs : List Char) :
    (cs.rdropWhile p).dropWhile p = (cs.dropWhile p).rdropWhile p := by
  induction cs with
  | nil => rfl
  | cons c cs ih =>
    by_cases hc : p c
    · rw [List.dropWhile_cons_of_pos hc, ← ih, rdropWhile_cons]
      by_cases hcs : cs.rdropWhile p = [] <;> simp [hc, hcs]
    · rw [List.dropWhile_cons_of_neg hc, rdropWhile_cons, if_neg (fun h => hc h.2),
        List.dropWhile_cons_of_neg hc]

-- ---------------------------------------------------------------------------
-- Trimming
-- ---------------------------------------------------------------------------

/-- Neither end of `cs` is in the class `p`. -/
structure Bare (p : Char → Bool) (cs : List Char) : Prop where
  head : ∀ c ∈ cs.head?, p c = false
  last : ∀ c ∈ cs.getLast?, p c = false

theorem trimBy_eq (cs : List Char) : trimBy p cs = (cs.dropWhile p).rdropWhile p := rfl

theorem trimBy_isPrefix (p : Char → Bool) (cs : List Char) : trimBy p cs <+: cs.dropWhile p :=
  List.rdropWhile_prefix p _

theorem trimBy_isInfix (p : Char → Bool) (cs : List Char) : trimBy p cs <:+: cs :=
  (trimBy_isPrefix p cs).isInfix.trans (List.dropWhile_suffix p).isInfix

theorem trimBy_reverse (cs : List Char) : trimBy p cs.reverse = (trimBy p cs).reverse := by
  rw [trimBy_eq cs, ← dropWhile_rdropWhile, List.rdropWhile, trimBy]

theorem trimBy_front (hfront : ∀ c ∈ front, p c = true) : trimBy p (front ++ cs) = trimBy p cs := by
  rw [trimBy, List.dropWhile_append_of_pos hfront, trimBy]

theorem trimBy_back (hback : ∀ c ∈ back, p c = true) : trimBy p (cs ++ back) = trimBy p cs := by
  have hfront : ∀ c ∈ back.reverse, p c = true := fun c hc => hback c (List.mem_reverse.mp hc)
  rw [← List.reverse_inj, ← trimBy_reverse, ← trimBy_reverse, List.reverse_append,
    trimBy_front hfront]

theorem bare_trimBy (p : Char → Bool) (cs : List Char) : Bare p (trimBy p cs) where
  head := by
    rw [← dropWhile_eq_self, trimBy_eq, ← dropWhile_rdropWhile, List.dropWhile_idempotent]
  last := by
    rw [← rdropWhile_eq_self, trimBy_eq, List.rdropWhile_idempotent]

theorem trimBy_eq_self : trimBy p cs = cs ↔ Bare p cs := by
  refine ⟨fun h => h ▸ bare_trimBy p cs, fun h => ?_⟩
  rw [trimBy_eq, dropWhile_eq_self.mpr h.head, rdropWhile_eq_self.mpr h.last]

theorem trimBy_trimBy (cs : List Char) : trimBy p (trimBy p cs) = trimBy p cs :=
  trimBy_eq_self.mpr (bare_trimBy p cs)

theorem trim_trim (s : String) : trim (trim s) = trim s := by
  simp only [trim, String.toList_ofList, trimBy_trimBy]

end Workflow.Text

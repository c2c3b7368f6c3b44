import Mathlib.Data.List.Induction
import Workflow.Proofs.Graph.Valid

/-!
# Unions in the order of first sight

An ordered union reads its lists as one and drops what was seen before. A string more at the end
either was seen or is added (`eraseDups_concat`), and all laws of the union are shown by adding
strings one by one: dropping repeats in a part of a list beforehand makes no difference to the whole
(`eraseDups_amid`), and nothing is dropped where nothing repeats (`eraseDups_of_nodup`).
-/

namespace Workflow

variable {xs ys : List String}

-- ---------------------------------------------------------------------------
-- Dropping repeats
-- ---------------------------------------------------------------------------

theorem eraseDups_of_nodup (h : xs.Nodup) : xs.eraseDups = xs := by
  induction xs using List.reverseRecOn with
  | nil => rfl
  | append_singleton xs x ih =>
    obtain ⟨hxs, -, hdisjoint⟩ := List.nodup_append.mp h
    have hx : x ∉ xs.eraseDups := by
      rw [List.mem_eraseDups]
      exact fun hmem => hdisjoint x hmem x List.mem_cons_self rfl
    rw [eraseDups_concat, if_neg hx, ih hxs]

/-- What is kept of a list behind another depends only on what was kept of the other. -/
theorem eraseDups_append_congr (h : xs.eraseDups = ys.eraseDups) (zs : List String) :
    (xs ++ zs).eraseDups = (ys ++ zs).eraseDups := by
  induction zs using List.reverseRecOn with
  | nil => simpa using h
  | append_singleton zs z ih =>
    rw [← List.append_assoc, ← List.append_assoc, eraseDups_concat, eraseDups_concat, ih]

theorem eraseDups_append_eraseDups (xs ys : List String) :
    (xs ++ ys.eraseDups).eraseDups = (xs ++ ys).eraseDups := by
  induction ys using List.reverseRecOn with
  | nil => rfl
  | append_singleton ys y ih =>
    rw [← List.append_assoc, eraseDups_concat, eraseDups_concat]
    by_cases hy : y ∈ ys.eraseDups
    · -- A repeat within the second list is a repeat in the whole.
      have hseen : y ∈ (xs ++ ys).eraseDups :=
        List.mem_eraseDups.mpr (List.mem_append_right xs (List.mem_eraseDups.mp hy))
      rw [if_pos hy, if_pos hseen, ih]
    · rw [if_neg hy, ← List.append_assoc, eraseDups_concat, ih]

/-- Repeats may be dropped in the middle of a list first. -/
theorem eraseDups_amid (xs ys zs : List String) :
    (xs ++ (ys.eraseDups ++ zs)).eraseDups = (xs ++ (ys ++ zs)).eraseDups := by
  rw [← List.append_assoc, ← List.append_assoc]
  exact eraseDups_append_congr (eraseDups_append_eraseDups xs ys) zs

/-- What is kept stands in the order of the places where it is seen first. -/
theorem eraseDups_order (xs : List String) :
    xs.eraseDups.Pairwise fun s t => xs.idxOf s < xs.idxOf t := by
  induction xs using List.reverseRecOn with
  | nil => exact .nil
  | append_singleton xs x ih =>
    have hplace {s : String} (hs : s ∈ xs.eraseDups) : (xs ++ [x]).idxOf s = xs.idxOf s :=
      List.idxOf_append_of_mem (List.mem_eraseDups.mp hs)
    have hkept : xs.eraseDups.Pairwise fun s t => (xs ++ [x]).idxOf s < (xs ++ [x]).idxOf t := by
      refine ih.imp_of_mem fun hs ht hlt => ?_
      rwa [hplace hs, hplace ht]
    rw [eraseDups_concat]
    split
    · exact hkept
    · rename_i hx
      rw [List.mem_eraseDups] at hx
      refine List.pairwise_append.mpr ⟨hkept, List.pairwise_singleton _ _, fun s hs t ht => ?_⟩
      -- A string that is new is first seen at the end, behind all others.
      obtain rfl := List.mem_singleton.mp ht
      have hlt : xs.idxOf s < xs.length := List.idxOf_lt_length_of_mem (List.mem_eraseDups.mp hs)
      rw [hplace hs, List.idxOf_append_of_notMem hx]
      exact Nat.lt_add_right _ hlt

-- ---------------------------------------------------------------------------
-- One list
-- ---------------------------------------------------------------------------

theorem nodup_distinct (values : List String) : (distinct values).Nodup := by
  unfold distinct
  split
  · assumption
  · exact nodup_eraseDups values

/-- It makes no difference that a list without repeats is not gone through. -/
theorem distinct_eq_union (values : List String) : distinct values = orderedUnion [values] := by
  have hone : orderedUnion [values] = values.eraseDups := by simp [orderedUnion]
  rw [hone]
  unfold distinct
  split
  · rename_i hnodup
    exact (eraseDups_of_nodup hnodup).symm
  · rfl

theorem distinct_distinct (values : List String) : distinct (distinct values) = distinct values :=
  if_pos (nodup_distinct values)

-- ---------------------------------------------------------------------------
-- Several lists
-- ---------------------------------------------------------------------------

/-- `union` has the strings of the lists, each once, in the order in which they are first seen when
the lists are read one after the other. -/
structure FirstSeen (lists : List (List String)) (union : List String) : Prop where
  nodup : union.Nodup
  mem : ∀ s, s ∈ union ↔ ∃ values ∈ lists, s ∈ values
  order : union.Pairwise fun s t => lists.flatten.idxOf s < lists.flatten.idxOf t

theorem orderedUnion_firstSeen (lists : List (List String)) :
    FirstSeen lists (orderedUnion lists) where
  nodup := nodup_eraseDups _
  mem s := by rw [orderedUnion, List.mem_eraseDups, List.mem_flatten]
  order := eraseDups_order _

/-- Lists that stand together may be united first. -/
theorem orderedUnion_group (before group after : List (List String)) :
    orderedUnion (before ++ orderedUnion group :: after) =
      orderedUnion (before ++ (group ++ after)) := by
  simp only [orderedUnion, List.flatten_append, List.flatten_cons]
  exact eraseDups_amid before.flatten group.flatten after.flatten

/-- An ordered union has the strings of its lists in the order in which they are first seen. It
stays the same if lists that stand together are united first, or if one list has its repeats dropped
first. A normalised configuration has the union of each of its three lists alone and is as it was
otherwise, and it is normalised already. -/
theorem orderedUnion_laws (lists before group after : List (List String)) (values : List String)
    (c : Task.Config) :
    FirstSeen lists (orderedUnion lists) ∧
    orderedUnion (before ++ orderedUnion group :: after) =
      orderedUnion (before ++ (group ++ after)) ∧
    orderedUnion (before ++ distinct values :: after) =
      orderedUnion (before ++ values :: after) ∧
    distinct values = orderedUnion [values] ∧
    c.normalized = { c with
      tools := orderedUnion [c.tools]
      agents := orderedUnion [c.agents]
      rags := orderedUnion [c.rags] } ∧
    c.normalized.normalized = c.normalized := by
  refine ⟨orderedUnion_firstSeen lists, orderedUnion_group before group after, ?_,
    distinct_eq_union values, ?_, ?_⟩
  · rw [distinct_eq_union]
    exact orderedUnion_group before [values] after
  · simp only [Task.Config.normalized, distinct_eq_union]
  · simp only [Task.Config.normalized, distinct_distinct]

/-- The lists of two tasks that were merged, and of a third. -/
example : orderedUnion [["pubmed"], ["pubmed", "fda"], ["web", "fda"]] = ["pubmed", "fda", "web"] ∧
    orderedUnion [orderedUnion [["pubmed"], ["pubmed", "fda"]], ["web", "fda"]] =
      ["pubmed", "fda", "web"] := by decide

end Workflow

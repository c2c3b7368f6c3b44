import Mathlib.Data.Finset.Card
import Mathlib.Data.List.Perm.Subperm
import Std.Data.String.ToNat
import Workflow.Graph.Ids

/-!
# Free ids are free

Both searches for a free id stop after one more candidate than there are taken ids. Their candidates
are distinct, so one of them is free; a numbered id has the least number that is.
-/

namespace Workflow

variable {taken : List String} {candidate : Nat → String} {base mark stem category : String}

/-- Of distinct candidates, one of as many as there are taken ids and one more is free. -/
theorem exists_free (taken : List String) (hinj : Function.Injective candidate) :
    ∃ k ≤ taken.length, candidate k ∉ taken := by
  by_contra hall
  have hsub : (List.range (taken.length + 1)).map candidate ⊆ taken := by
    intro id hid
    obtain ⟨k, hk, rfl⟩ := List.mem_map.mp hid
    by_contra hfree
    exact hall ⟨k, Nat.le_of_lt_succ (List.mem_range.mp hk), hfree⟩
  have hnodup : ((List.range (taken.length + 1)).map candidate).Nodup :=
    List.nodup_range.map hinj
  have hlen := (List.subperm_of_subset hnodup hsub).length_le
  simp only [List.length_map, List.length_range] at hlen
  omega

theorem numbered_injective (base mark : String) :
    Function.Injective fun k : Nat => base ++ mark ++ toString (k + 2) := by
  intro i j h
  have h : (i + 2).repr = (j + 2).repr := (String.append_right_inj (base ++ mark)).mp h
  exact Nat.add_right_cancel (Nat.repr_injective h)

/-- A base that is taken is numbered, by the least number from 2 that makes it free. -/
theorem freeId_numbered (mark : String) (h : base ∈ taken) : ∃ n, 2 ≤ n ∧
    freeId taken base mark = base ++ mark ++ toString n ∧ base ++ mark ++ toString n ∉ taken ∧
    ∀ m, 2 ≤ m → m < n → base ++ mark ++ toString m ∈ taken := by
  obtain ⟨k, hk, hfree⟩ := exists_free taken (numbered_injective base mark)
  cases hf : (List.range (taken.length + 1)).find?
      fun k => base ++ mark ++ toString (k + 2) ∉ taken with
  | none =>
    have hnone := List.find?_eq_none.mp hf k (List.mem_range.mpr (Nat.lt_succ_of_le hk))
    exact absurd hfree (by simpa using hnone)
  | some k =>
    obtain ⟨hfree, -, hleast⟩ := List.find?_range_eq_some.mp hf
    refine ⟨k + 2, by omega, ?_, by simpa using hfree, fun m hm hlt => ?_⟩
    · simp only [freeId, if_pos h, List.find?_map, Function.comp_def, hf, Option.map_some,
        Option.getD_some]
    · have hm : m - 2 + 2 = m := by omega
      simpa [hm] using hleast (m - 2) (by omega)

theorem freeId_free : freeId taken base mark ∉ taken := by
  by_cases h : base ∈ taken
  · obtain ⟨n, -, hn, hfree, -⟩ := freeId_numbered mark h
    exact hn ▸ hfree
  · rwa [freeId, if_neg h]

theorem edgeId_free {source target : String} : edgeId taken source target ∉ taken := freeId_free

/-- If the base and all smaller numbers are taken, a number is at most one above the number of ids
that are. -/
theorem numbered_le {n : Nat} (hmark : mark ≠ "") (h : base ∈ taken)
    (hbelow : ∀ m, 2 ≤ m → m < n → base ++ mark ++ toString m ∈ taken) :
    n ≤ taken.toFinset.card + 1 := by
  let ids := base :: (List.range (n - 2)).map fun k => base ++ mark ++ toString (k + 2)
  have hsub : ids ⊆ taken := by
    refine List.cons_subset.mpr ⟨h, fun id hid => ?_⟩
    obtain ⟨k, hk, rfl⟩ := List.mem_map.mp hid
    have hk := List.mem_range.mp hk
    exact hbelow (k + 2) (by omega) (by omega)
  -- The base is shorter than its numbered forms, which differ in their numbers.
  have hnodup : ids.Nodup := by
    refine List.nodup_cons.mpr ⟨fun hmem => ?_, List.nodup_range.map (numbered_injective base mark)⟩
    obtain ⟨k, -, hk⟩ := List.mem_map.mp hmem
    have hlen := congrArg String.length hk
    have hpos : mark.length ≠ 0 := mt String.length_eq_zero_iff.mp hmark
    simp only [String.length_append] at hlen
    omega
  have hcard : ids.toFinset.card ≤ taken.toFinset.card :=
    Finset.card_le_card fun id hid => List.mem_toFinset.mpr (hsub (List.mem_toFinset.mp hid))
  have hlen : ids.length = n - 2 + 1 := by simp [ids]
  rw [List.toFinset_card_of_nodup hnodup] at hcard
  omega

namespace TokenSupply

variable {s : TokenSupply}

theorem idAt_injective (hs : Function.Injective s.token) (stem : String) :
    Function.Injective (s.idAt stem) := by
  intro i j h
  have h : s.token (s.drawn + i) = s.token (s.drawn + j) :=
    (String.append_right_inj (stem ++ "-")).mp h
  exact Nat.add_left_cancel (hs h)

/-- An id made of a token is free, if the tokens are distinct. -/
theorem freshId_free (hs : Function.Injective s.token) : (s.freshId stem taken).1 ∉ taken := by
  simp only [freshId]
  cases hf : (List.range taken.length).find? fun k => s.idAt stem k ∉ taken with
  | some k => simpa using List.find?_some hf
  | none =>
    obtain ⟨k, hk, hfree⟩ := exists_free taken (idAt_injective hs stem)
    have htaken : ∀ k < taken.length, s.idAt stem k ∈ taken := by
      simpa [List.find?_eq_none] using hf
    rcases Nat.lt_or_eq_of_le hk with hlt | rfl
    · exact absurd (htaken k hlt) hfree
    · exact hfree

theorem freshNodeId_free (hs : Function.Injective s.token) :
    (s.freshNodeId category taken).1 ∉ taken := freshId_free hs

end TokenSupply

end Workflow

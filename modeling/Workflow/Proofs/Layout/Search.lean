import Mathlib.Data.Nat.Count
import Workflow.Layout.Place

/-!
# The search for clear slots

The search counts slots from 0 on, and hands out the clear ones in their order: the slot that comes
after `j` others is the one that has `j` clear numbers below it. So the search finds `n` slots
exactly if there are as many clear numbers, and it goes no further than it has to.
-/

namespace Workflow.Layout

variable {clear : Nat → Bool} {slots : List Nat} {fuel i j k n x : Nat}

/-- How many numbers below `n` are clear. -/
def clearBelow (clear : Nat → Bool) (n : Nat) : Nat := Nat.count (fun k => clear k = true) n

theorem clearBelow_zero (clear : Nat → Bool) : clearBelow clear 0 = 0 := Nat.count_zero _

theorem clearBelow_succ (h : clear k) : clearBelow clear (k + 1) = clearBelow clear k + 1 := by
  simp [clearBelow, Nat.count_succ, h]

theorem clearBelow_skip (h : clear k = false) : clearBelow clear (k + 1) = clearBelow clear k := by
  simp [clearBelow, Nat.count_succ, h]

theorem clearBelow_le (h : j ≤ k) : clearBelow clear j ≤ clearBelow clear k :=
  Nat.count_monotone _ h

theorem lt_of_clearBelow_lt (h : clearBelow clear j < clearBelow clear k) : j < k := by
  by_contra hle
  exact absurd (clearBelow_le (Nat.le_of_not_lt hle)) (Nat.not_le_of_lt h)

theorem clearBelow_lt (h : clear j) (hjk : j < k) : clearBelow clear j < clearBelow clear k :=
  Nat.count_strict_mono h hjk

/-- The number is the first clear one from `k` on. -/
theorem firstClear_ok (h : firstClear clear fuel k = some x) :
    k ≤ x ∧ x < k + fuel ∧ clear x ∧ clearBelow clear x = clearBelow clear k := by
  induction fuel generalizing k with
  | zero => cases h
  | succ fuel ih =>
    unfold firstClear at h
    split at h
    · cases h
      exact ⟨le_rfl, by omega, by assumption, rfl⟩
    · rename_i hk
      obtain ⟨hle, hlt, hx, hcount⟩ := ih h
      rw [clearBelow_skip (by simpa using hk)] at hcount
      exact ⟨by omega, by omega, hx, hcount⟩

theorem firstClear_none (h : firstClear clear fuel k = none) :
    clearBelow clear (k + fuel) = clearBelow clear k := by
  induction fuel generalizing k with
  | zero => rfl
  | succ fuel ih =>
    unfold firstClear at h
    split at h
    · cases h
    · rename_i hk
      have hskip : clearBelow clear (k + 1) = clearBelow clear k := clearBelow_skip (by simpa using hk)
      rw [Nat.add_comm fuel 1, ← Nat.add_assoc, ih h, hskip]

theorem clearSlots_succ : clearSlots clear (n + 1) k = some slots ↔
    ∃ x rest, firstClear clear (slotCount - k) k = some x ∧
      clearSlots clear n (x + 1) = some rest ∧ slots = x :: rest := by
  simp only [clearSlots, Option.bind_eq_bind, Option.bind_eq_some_iff, Option.pure_def,
    Option.some.injEq, eq_comm (a := slots), exists_and_left]

/-- The slots that are handed out, each by the clear numbers below it. -/
theorem clearSlots_ok (h : clearSlots clear n k = some slots) (hx : slots[j]? = some x) :
    clear x ∧ x < slotCount ∧ clearBelow clear x = clearBelow clear k + j := by
  induction n generalizing k j slots with
  | zero =>
    cases h
    cases hx
  | succ n ih =>
    obtain ⟨y, rest, hy, hrest, rfl⟩ := clearSlots_succ.mp h
    obtain ⟨hle, hlt, hclear, hcount⟩ := firstClear_ok hy
    cases j with
    | zero =>
      cases hx
      exact ⟨hclear, by omega, hcount⟩
    | succ j =>
      obtain ⟨hx, hlt, hbelow⟩ := ih hrest hx
      rw [clearBelow_succ hclear, hcount] at hbelow
      exact ⟨hx, hlt, by omega⟩

/-- The search finds `n` slots exactly if there are as many clear numbers to count through. -/
theorem clearSlots_isSome_iff (hk : k ≤ slotCount) : (clearSlots clear n k).isSome ↔
    clearBelow clear k + n ≤ clearBelow clear slotCount := by
  induction n generalizing k with
  | zero => exact iff_of_true rfl (clearBelow_le hk)
  | succ n ih =>
    simp only [Option.isSome_iff_exists, clearSlots_succ]
    cases hx : firstClear clear (slotCount - k) k with
    | none =>
      have hnone := firstClear_none hx
      rw [Nat.add_sub_cancel' hk] at hnone
      simp only [reduceCtorEq, false_and, exists_false, false_iff]
      omega
    | some x =>
      obtain ⟨-, hlt, hclear, hcount⟩ := firstClear_ok hx
      have hrest := ih (k := x + 1) (by omega)
      rw [clearBelow_succ hclear, hcount, Option.isSome_iff_exists] at hrest
      rw [← Nat.add_assoc, Nat.add_right_comm, ← hrest]
      constructor
      · rintro ⟨_, _, rest, ⟨⟩, hslots, -⟩
        exact ⟨rest, hslots⟩
      · rintro ⟨rest, hslots⟩
        exact ⟨_, x, rest, rfl, hslots, rfl⟩

/-- From a number on from which all are clear there are as many clear ones as numbers. -/
theorem le_clearBelow_of_clear (h : ∀ i, k ≤ i → i < k + n → clear i) :
    n ≤ clearBelow clear (k + n) := by
  have hall : Nat.count (fun i => clear (k + i) = true) n = n :=
    Nat.count_iff_forall.mpr fun i hi => h (k + i) (by omega) (by omega)
  rw [clearBelow, Nat.count_add, hall]
  exact Nat.le_add_left _ _

end Workflow.Layout

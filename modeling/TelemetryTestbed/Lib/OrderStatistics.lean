import Mathlib.Algebra.Order.Floor.Ring
import Mathlib.Algebra.Order.Field.Basic
import Mathlib.Data.List.Sort
import Mathlib.Tactic.Linarith
import Mathlib.Tactic.Ring

/-!
# Order statistics

The elements of a list in their order, and the straight lines between neighbours. What
is said of a sorted list is that it does not depend on how the elements came, and that it
grows with them: replacing elements by larger ones makes no order statistic smaller
(`forall₂_insertionSort`). What is said of the lines is that they are monotone, in the
position (`interpolate_mono`) and in the elements (`interpolate_mono_left`).

Percentiles, quartiles and medians are instances: the value at a real position between the two
neighbours, on the line that joins them. Sorting is the insertion sort of Mathlib, which lets
the proof compare two lists element by element; any other sort gives the same list.
-/

namespace TelemetryTestbed.Lib

/-! ## Sorting element by element -/

section Sorting

variable {α : Type*} [LinearOrder α] {a b : α} {l l' : List α}

/-- An element below all others is inserted in front. -/
theorem orderedInsert_of_pairwise (h : (a :: l).Pairwise (· ≤ ·)) :
    l.orderedInsert (· ≤ ·) a = a :: l := by
  cases l with
  | nil => rfl
  | cons b l => exact List.orderedInsert_cons_of_le _ l (List.rel_of_pairwise_cons h List.mem_cons_self)

theorem forall₂_orderedInsert (hab : a ≤ b) (hl : l.Pairwise (· ≤ ·)) (hl' : l'.Pairwise (· ≤ ·))
    (h : List.Forall₂ (· ≤ ·) l l') :
    List.Forall₂ (· ≤ ·) (l.orderedInsert (· ≤ ·) a) (l'.orderedInsert (· ≤ ·) b) := by
  induction h generalizing a b with
  | nil => exact .cons hab .nil
  | @cons x y l l' hxy hrest ih =>
    have hx := hl.tail
    have hy := hl'.tail
    by_cases hax : a ≤ x <;> by_cases hby : b ≤ y
    · simpa [hax, hby] using ⟨hab, hxy, hrest⟩
    · -- `a` and `x` stand where `y` and the first of the rest do
      have hrest' := ih (hxy.trans (not_le.mp hby).le) hx hy
      rw [orderedInsert_of_pairwise hl] at hrest'
      simpa [hax, hby] using ⟨hax.trans hxy, hrest'⟩
    · have hrest' := ih (hab.trans hby) hx hy
      rw [orderedInsert_of_pairwise hl'] at hrest'
      simpa [hax, hby] using ⟨(not_le.mp hax).le.trans hab, hrest'⟩
    · simpa [hax, hby] using ⟨hxy, ih hab hx hy⟩

theorem forall₂_insertionSort (h : List.Forall₂ (· ≤ ·) l l') :
    List.Forall₂ (· ≤ ·) (l.insertionSort (· ≤ ·)) (l'.insertionSort (· ≤ ·)) := by
  induction h with
  | nil => exact .nil
  | cons hab _ ih =>
    exact forall₂_orderedInsert hab (List.pairwise_insertionSort _ _)
      (List.pairwise_insertionSort _ _) ih

/-- The sorted list is that of any permutation. -/
theorem insertionSort_congr (h : l.Perm l') :
    l.insertionSort (· ≤ ·) = l'.insertionSort (· ≤ ·) :=
  ((List.perm_insertionSort _ l).trans (h.trans (List.perm_insertionSort _ l').symm)).eq_of_pairwise'
    (List.pairwise_insertionSort _ l) (List.pairwise_insertionSort _ l')

end Sorting

/-! ## Between neighbours -/

section Interpolation

variable {α : Type*} [Field α] [LinearOrder α] [IsStrictOrderedRing α] [FloorSemiring α]
  {v w : ℕ → α} {k k' : α}

/-- The line from each value to the next, at the position `k`. -/
def interpolate (v : ℕ → α) (k : α) : α :=
  v ⌊k⌋₊ + (v (⌊k⌋₊ + 1) - v ⌊k⌋₊) * (k - ⌊k⌋₊)

theorem interpolate_natCast (v : ℕ → α) (n : ℕ) : interpolate v (n : α) = v n := by
  simp [interpolate]

theorem le_interpolate (hv : Monotone v) (hk : 0 ≤ k) : v ⌊k⌋₊ ≤ interpolate v k := by
  have hstep : 0 ≤ v (⌊k⌋₊ + 1) - v ⌊k⌋₊ := sub_nonneg.mpr (hv (Nat.le_succ _))
  have hfrac : 0 ≤ k - ⌊k⌋₊ := sub_nonneg.mpr (Nat.floor_le hk)
  exact le_add_of_nonneg_right (mul_nonneg hstep hfrac)

theorem interpolate_le (hv : Monotone v) (k : α) : interpolate v k ≤ v (⌊k⌋₊ + 1) := by
  have hstep : 0 ≤ v (⌊k⌋₊ + 1) - v ⌊k⌋₊ := sub_nonneg.mpr (hv (Nat.le_succ _))
  have hfrac : k - ⌊k⌋₊ ≤ 1 := by linarith [Nat.lt_floor_add_one k]
  have := mul_le_of_le_one_right hstep hfrac
  unfold interpolate
  linarith

/-- Within a cell the line rises, and from one cell to the next the value between them
separates. -/
theorem interpolate_mono (hv : Monotone v) (hk : 0 ≤ k) (hkk' : k ≤ k') :
    interpolate v k ≤ interpolate v k' := by
  rcases (Nat.floor_mono hkk').eq_or_lt with heq | hlt
  · have hstep : 0 ≤ v (⌊k⌋₊ + 1) - v ⌊k⌋₊ := sub_nonneg.mpr (hv (Nat.le_succ _))
    unfold interpolate
    rw [← heq]
    exact add_le_add_right (mul_le_mul_of_nonneg_left (sub_le_sub_right hkk' _) hstep) _
  · calc interpolate v k ≤ v (⌊k⌋₊ + 1) := interpolate_le hv k
      _ ≤ v ⌊k'⌋₊ := hv hlt
      _ ≤ interpolate v k' := le_interpolate hv (hk.trans hkk')

/-- The value is a mean of its neighbours, so it rises with them. -/
theorem interpolate_mono_left (hvw : ∀ n, v n ≤ w n) (hk : 0 ≤ k) :
    interpolate v k ≤ interpolate w k := by
  have hfrac : 0 ≤ k - ⌊k⌋₊ := sub_nonneg.mpr (Nat.floor_le hk)
  have hrest : 0 ≤ 1 - (k - ⌊k⌋₊) := by linarith [Nat.lt_floor_add_one k]
  have hlow := mul_le_mul_of_nonneg_right (hvw ⌊k⌋₊) hrest
  have hhigh := mul_le_mul_of_nonneg_right (hvw (⌊k⌋₊ + 1)) hfrac
  unfold interpolate
  linarith

end Interpolation

/-! ## The values of a list by their position -/

section Positions

variable {α : Type*} [Zero α] {l l' : List α}

/-- The element at a position; behind the end, the last one. -/
def valueAt (l : List α) (n : ℕ) : α := l.getD (min n (l.length - 1)) 0

theorem getElem?_eq_valueAt {n : ℕ} (h : n < l.length) : l[n]? = some (valueAt l n) := by
  have hmin : min n (l.length - 1) = n := by omega
  simp [valueAt, hmin, h]

theorem valueAt_eq_getElem (n : ℕ) (h : min n (l.length - 1) < l.length) :
    valueAt l n = l[min n (l.length - 1)] := by
  rw [valueAt, List.getD_eq_getElem?_getD, List.getElem?_eq_getElem h, Option.getD_some]

variable [Preorder α]

theorem monotone_valueAt (h : l.Pairwise (· ≤ ·)) : Monotone (valueAt l) := by
  rcases eq_or_ne l [] with rfl | hne
  · intro n m _
    simp [valueAt]
  · have hlength := List.length_pos_iff.mpr hne
    intro n m hnm
    rw [valueAt_eq_getElem n (by omega), valueAt_eq_getElem m (by omega)]
    rcases (min_le_min_right (l.length - 1) hnm).eq_or_lt with heq | hlt
    · simp only [heq, le_refl]
    · exact List.pairwise_iff_getElem.mp h _ _ _ _ hlt

theorem valueAt_le_valueAt (h : List.Forall₂ (· ≤ ·) l l') (n : ℕ) : valueAt l n ≤ valueAt l' n := by
  have hlength := h.length_eq
  rcases eq_or_ne l [] with rfl | hne
  · simp [valueAt, List.eq_nil_of_length_eq_zero hlength.symm]
  · have hpos := List.length_pos_iff.mpr hne
    rw [valueAt_eq_getElem n (by omega), valueAt_eq_getElem n (by omega)]
    simp only [← hlength]
    exact h.get (by omega) (by omega)

end Positions

end TelemetryTestbed.Lib

import Mathlib.Data.List.Chain
import Mathlib.Data.List.DropRight

/-!
# The last entries of a list

A buffer that keeps its newest entries only (`List.rtake`). Entries that arrive one
after the other leave what is left of them all at once (`rtake_rtake_append`), and the
buffer stays in order exactly if the new entries begin behind its last one, or push
all of it out (`isChain_rtake_append`).

The list is any list and the window any length, so one law serves for a table, a chart and a
buffer alike. Order is a relation on neighbours, and the second law says which appended blocks
keep it: those that continue the last entry, or that replace everything.
-/

namespace TelemetryTestbed.Lib

variable {α : Type*} {R : α → α → Prop} {xs ys : List α} {n k : Nat}

theorem rtake_suffix (xs : List α) (n : Nat) : xs.rtake n <:+ xs := List.drop_suffix _ xs

theorem rtake_append (xs ys : List α) (n : Nat) :
    (xs ++ ys).rtake n = xs.rtake (n - ys.length) ++ ys.rtake n := by
  have hsecond : xs.length + ys.length - n - xs.length = ys.length - n := by omega
  rw [List.rtake, List.length_append, List.drop_append, hsecond, List.rtake, List.rtake]
  congr 1
  by_cases h : ys.length ≤ n
  · congr 1
    omega
  · rw [List.drop_eq_nil_of_le (by omega), List.drop_eq_nil_of_le (by omega)]

theorem rtake_rtake (h : k ≤ n) (xs : List α) : (xs.rtake n).rtake k = xs.rtake k := by
  rw [List.rtake, List.rtake, List.rtake, List.drop_drop, List.length_drop]
  congr 1
  omega

theorem rtake_rtake_append (xs ys : List α) (n : Nat) :
    (xs.rtake n ++ ys).rtake n = (xs ++ ys).rtake n := by
  rw [rtake_append, rtake_append, rtake_rtake (Nat.sub_le n ys.length)]

theorem getLast?_rtake (h : 0 < k) (xs : List α) : (xs.rtake k).getLast? = xs.getLast? := by
  rw [List.rtake, List.getLast?_drop]
  split
  next hlength =>
    have hnil : xs = [] := List.eq_nil_of_length_eq_zero (by omega)
    rw [hnil, List.getLast?_nil]
  next => rfl

theorem isChain_rtake_append (hx : xs.IsChain R) (hy : ys.IsChain R) :
    ((xs ++ ys).rtake n).IsChain R ↔
      (ys.length < n → ∀ x ∈ xs.getLast?, ∀ y ∈ ys.head?, R x y) := by
  by_cases h : ys.length < n
  · have hall : ys.rtake n = ys := by
      rw [List.rtake, Nat.sub_eq_zero_of_le h.le, List.drop_zero]
    rw [rtake_append, hall, List.isChain_append, getLast?_rtake (Nat.sub_pos_of_lt h)]
    constructor
    · rintro ⟨-, -, hlast⟩ -
      exact hlast
    · intro hlast
      exact ⟨hx.suffix (rtake_suffix xs _), hy, hlast h⟩
  · have hnone : xs.rtake (n - ys.length) = [] := by
      rw [Nat.sub_eq_zero_of_le (Nat.not_lt.mp h), List.rtake_zero]
    rw [rtake_append, hnone, List.nil_append]
    constructor
    · intro _ hlt
      exact absurd hlt h
    · intro _
      exact hy.suffix (rtake_suffix ys n)

/-- Every entry of an ordered list stands in the relation to the last one. -/
theorem rel_getLast? (hrefl : ∀ a, R a a) (h : xs.Pairwise R) {x : α} (hx : x ∈ xs) :
    ∃ y ∈ xs.getLast?, R x y := by
  obtain rfl | ⟨front, y, rfl⟩ := List.eq_nil_or_concat' xs
  · cases hx
  · refine ⟨y, List.getLast?_concat, ?_⟩
    obtain hx | hx := List.mem_append.mp hx
    · exact (List.pairwise_append.mp h).2.2 x hx y List.mem_cons_self
    · rw [List.mem_singleton.mp hx]
      exact hrefl y

end TelemetryTestbed.Lib

import Mathlib.Data.List.Dedup
import Mathlib.Order.Interval.Finset.Basic
import Mathlib.Data.Int.Interval
import Mathlib.Data.Finset.Dedup

/-!
# Neighbours in a list

How many neighbours of a list are in a relation. Equal neighbours are elements that are
there already, so they and the distinct elements are not more than all
(`length_dedup_add_adjacent_le`); in a list that never decreases equal elements stand
together, and they are just as many (`length_dedup_add_adjacent`).

Both counts are over lists of any length; the first needs equality to be decidable and the
second an order. A list that is not sorted may have equal elements apart from each other,
which no neighbour sees, so there the bound may be strict.
-/

namespace TelemetryTestbed.Lib

/-- The number of neighbours that are in the relation. -/
def adjacent {α : Type*} (r : α → α → Bool) : List α → Nat
  | [] => 0
  | [_] => 0
  | a :: b :: l => (if r a b then 1 else 0) + adjacent r (b :: l)

variable {α : Type*} {r : α → α → Bool} {a b : α} {l : List α}

theorem adjacent_cons_of_pos (h : r a b = true) :
    adjacent r (a :: b :: l) = adjacent r (b :: l) + 1 := by
  rw [adjacent, if_pos h, Nat.add_comm]

theorem adjacent_cons_of_neg (h : r a b = false) :
    adjacent r (a :: b :: l) = adjacent r (b :: l) := by
  rw [adjacent, if_neg (by simp [h]), Nat.zero_add]

theorem length_dedup_add_adjacent_le [DecidableEq α] (l : List α) :
    l.dedup.length + adjacent (fun a b => a = b) l ≤ l.length := by
  induction l with
  | nil => exact le_rfl
  | cons a l ih =>
    cases l with
    | nil => simp [adjacent]
    | cons b l =>
      by_cases hab : a = b
      · subst hab
        rw [List.dedup_cons_of_mem List.mem_cons_self, adjacent_cons_of_pos (decide_eq_true rfl)]
        exact Nat.succ_le_succ ih
      · rw [adjacent_cons_of_neg (decide_eq_false hab)]
        by_cases hmem : a ∈ b :: l
        · rw [List.dedup_cons_of_mem hmem]
          exact ih.trans (Nat.le_succ _)
        · rw [List.dedup_cons_of_notMem hmem, List.length_cons, List.length_cons (a := a)]
          omega

variable [LinearOrder α]

/-- Without a decrease the list is sorted. -/
theorem pairwise_of_adjacent_eq_zero (h : adjacent (fun a b => b < a) l = 0) :
    l.Pairwise (· ≤ ·) := by
  apply List.IsChain.pairwise
  induction l with
  | nil => exact .nil
  | cons a l ih =>
    cases l with
    | nil => exact .singleton a
    | cons b l =>
      by_cases hlt : b < a
      · rw [adjacent_cons_of_pos (decide_eq_true hlt)] at h
        cases h
      · rw [adjacent_cons_of_neg (decide_eq_false hlt)] at h
        exact .cons_cons (not_lt.mp hlt) (ih h)

theorem length_dedup_add_adjacent (h : l.Pairwise (· ≤ ·)) :
    l.dedup.length + adjacent (fun a b => a = b) l = l.length := by
  induction l with
  | nil => rfl
  | cons a l ih =>
    cases l with
    | nil => simp [adjacent]
    | cons b l =>
      have hrest := ih h.tail
      by_cases hab : a = b
      · subst hab
        rw [List.dedup_cons_of_mem List.mem_cons_self, adjacent_cons_of_pos (decide_eq_true rfl)]
        exact congrArg (· + 1) hrest
      · -- what comes behind is larger
        have hlt : a < b := lt_of_le_of_ne (List.rel_of_pairwise_cons h List.mem_cons_self) hab
        have hmem : a ∉ b :: l := by
          intro hmem
          rcases List.mem_cons.mp hmem with rfl | hmem
          · exact hab rfl
          · exact absurd (List.rel_of_pairwise_cons h.tail hmem) (not_le.mpr hlt)
        rw [adjacent_cons_of_neg (decide_eq_false hab), List.dedup_cons_of_notMem hmem,
          List.length_cons, List.length_cons (a := a)]
        omega

/-- Distinct integers are not more than lie between the bounds. -/
theorem length_dedup_le_span {l : List Int} {lo hi : Int} (h : ∀ x ∈ l, lo ≤ x ∧ x ≤ hi)
    (hle : lo ≤ hi) : (l.dedup.length : Int) ≤ hi - lo + 1 := by
  have hsubset : l.toFinset ⊆ Finset.Icc lo hi := by
    intro x hx
    exact Finset.mem_Icc.mpr (h x (List.mem_toFinset.mp hx))
  have hcard := Finset.card_le_card hsubset
  rw [List.card_toFinset, Int.card_Icc] at hcard
  omega

end TelemetryTestbed.Lib

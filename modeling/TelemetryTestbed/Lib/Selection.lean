import Mathlib.Data.List.Nodup
import Mathlib.Order.Basic

/-!
# A sorted selection of the largest

What `ORDER BY key DESC LIMIT n` gives: the `n` elements with the largest keys, or
all where there are not as many, the largest first. Which elements are taken
among equal keys, and in what order they come, is left open.

A database is free to choose among rows with equal keys, and a statement about its answers has
to hold for every choice. The relation says what all choices have in common; that some choice
exists is not stated, since the answer is given.
-/

namespace TelemetryTestbed.Lib

variable {α κ : Type} [Preorder κ]

/-- The result of `ORDER BY key DESC LIMIT n`: as many elements as there may be, sorted, and
none left out that has a larger key than one of them. -/
structure TopSelection (key : α → κ) (n : Nat) (all result : List α) : Prop where
  length : result.length = min n all.length
  sorted : result.Pairwise fun a b => key b ≤ key a
  chosen : ∃ omitted, (result ++ omitted).Perm all ∧
    ∀ a ∈ result, ∀ b ∈ omitted, key b ≤ key a

variable {key : α → κ} {n : Nat} {all result : List α}

theorem TopSelection.length_le (h : TopSelection key n all result) : result.length ≤ n := by
  rw [h.length]
  exact Nat.min_le_left _ _

theorem TopSelection.subset (h : TopSelection key n all result) : result ⊆ all := by
  obtain ⟨omitted, hperm, -⟩ := h.chosen
  intro a ha
  exact hperm.subset (List.mem_append_left _ ha)

theorem TopSelection.nodup (h : TopSelection key n all result) (hall : all.Nodup) :
    result.Nodup := by
  obtain ⟨omitted, hperm, -⟩ := h.chosen
  exact (hperm.nodup_iff.mpr hall).of_append_left

/-- What is not in the selection has no larger key than what is. -/
theorem TopSelection.le_of_notMem (h : TopSelection key n all result) {a b : α}
    (ha : a ∈ result) (hb : b ∈ all) (hout : b ∉ result) : key b ≤ key a := by
  obtain ⟨omitted, hperm, hle⟩ := h.chosen
  apply hle a ha b
  rcases List.mem_append.mp (hperm.mem_iff.mpr hb) with hin | hin
  · exact absurd hin hout
  · exact hin

/-- Read backwards, a selection ascends. -/
theorem TopSelection.reverse_sorted (h : TopSelection key n all result) :
    result.reverse.Pairwise fun a b => key a ≤ key b :=
  List.pairwise_reverse.mpr h.sorted

end TelemetryTestbed.Lib

import Mathlib.Algebra.Order.Ring.Nat

/-!
# Hashing block by block

A hash function that iterates a compression function takes its input in blocks
of `n` elements. `chainBlocks` is the state after all whole blocks, with what is
left over. Input may come in any parts: the left over elements go in front of
the next part (`chainBlocks_append`).

A program that buffers the bytes of an incomplete block is at every moment in the state
`chainBlocks` gives for what it has taken so far, so the digest of a message does not depend
on how it was cut. Padding is left to the hash function: it is only more input.
-/

namespace TelemetryTestbed.Lib

variable {σ β : Type*}

/-- The state after the whole blocks of the input, and the elements after them. -/
def chainBlocks (n : Nat) [NeZero n] (compress : σ → List β → σ) (s : σ) (xs : List β) :
    σ × List β :=
  if n ≤ xs.length then chainBlocks n compress (compress s (xs.take n)) (xs.drop n)
  else (s, xs)
termination_by xs.length
decreasing_by
  have hn := Nat.pos_of_ne_zero (NeZero.ne n)
  rw [List.length_drop]
  omega

variable {n : Nat} [NeZero n] {compress : σ → List β → σ}

theorem chainBlocks_of_lt {xs : List β} (h : xs.length < n) (s : σ) :
    chainBlocks n compress s xs = (s, xs) := by
  rw [chainBlocks, if_neg (Nat.not_le.mpr h)]

theorem chainBlocks_of_le {xs : List β} (h : n ≤ xs.length) (s : σ) :
    chainBlocks n compress s xs =
      chainBlocks n compress (compress s (xs.take n)) (xs.drop n) := by
  rw [chainBlocks, if_pos h]

/-- A block in front. -/
theorem chainBlocks_block {block : List β} (h : block.length = n) (s : σ) (xs : List β) :
    chainBlocks n compress s (block ++ xs) = chainBlocks n compress (compress s block) xs := by
  have hle : n ≤ (block ++ xs).length := by
    rw [List.length_append, h]
    exact Nat.le_add_right _ _
  rw [chainBlocks_of_le hle, List.take_left' h, List.drop_left' h]

variable (n compress) in
theorem length_chainBlocks_snd (s : σ) (xs : List β) :
    (chainBlocks n compress s xs).2.length = xs.length % n := by
  fun_induction chainBlocks n compress s xs with
  | case1 s xs h ih =>
    rw [ih, List.length_drop]
    exact (Nat.mod_eq_sub_mod h).symm
  | case2 s xs h => exact (Nat.mod_eq_of_lt (Nat.lt_of_not_le h)).symm

variable (n compress) in
/-- The second part goes behind what the first has left over. -/
theorem chainBlocks_append (s : σ) (xs ys : List β) :
    chainBlocks n compress s (xs ++ ys) =
      chainBlocks n compress (chainBlocks n compress s xs).1
        ((chainBlocks n compress s xs).2 ++ ys) := by
  fun_induction chainBlocks n compress s xs with
  | case1 s xs h ih =>
    have hle : n ≤ (xs ++ ys).length := by
      rw [List.length_append]
      exact Nat.le_trans h (Nat.le_add_right _ _)
    rw [chainBlocks_of_le hle, List.take_append_of_le_length h,
      List.drop_append_of_le_length h, ih]
  | case2 s xs h => rfl

end TelemetryTestbed.Lib

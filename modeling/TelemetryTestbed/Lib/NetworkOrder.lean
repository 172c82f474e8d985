import Mathlib.Data.List.Induction
import Mathlib.Data.Nat.Digits.Lemmas
import TelemetryTestbed.Lib.Bytes

/-!
# Network byte order

Numbers in a fixed number of bytes, most significant byte first. `fromNetwork`
reads such a number, and undoes `networkOrder` where the number fits.

A number that does not fit keeps its low bytes, as an assignment to a narrower field does, so
the reader gives back the remainder; the exact statement asks for the bound.
-/

namespace TelemetryTestbed.Lib

/-- The number `n` in `k` bytes, most significant byte first. -/
def networkOrder : Nat → Nat → Bytes
  | 0, _ => []
  | k + 1, n => networkOrder k (n / 256) ++ [UInt8.ofNat n]

/-- The number that stands in the bytes, most significant byte first. -/
def fromNetwork (bytes : Bytes) : Nat := bytes.foldl (fun v b => 256 * v + b.toNat) 0

@[simp] theorem length_networkOrder (k n : Nat) : (networkOrder k n).length = k := by
  induction k generalizing n with
  | zero => rfl
  | succ k ih => simp only [networkOrder, List.length_append, ih, List.length_singleton]

theorem fromNetwork_append (bytes : Bytes) (b : UInt8) :
    fromNetwork (bytes ++ [b]) = 256 * fromNetwork bytes + b.toNat := by
  simp only [fromNetwork, List.foldl_append, List.foldl_cons, List.foldl_nil]

theorem fromNetwork_lt (bytes : Bytes) : fromNetwork bytes < 256 ^ bytes.length := by
  induction bytes using List.reverseRecOn with
  | nil => decide
  | append_singleton bytes b ih =>
    have hb : b.toNat < 256 := b.toNat_lt
    rw [fromNetwork_append, List.length_append, List.length_singleton, Nat.pow_succ]
    omega

theorem fromNetwork_networkOrder {k n : Nat} (h : n < 256 ^ k) :
    fromNetwork (networkOrder k n) = n := by
  induction k generalizing n with
  | zero =>
    have hn : n = 0 := by simpa using h
    exact hn.symm
  | succ k ih =>
    have hdiv : n / 256 < 256 ^ k := by
      rw [Nat.pow_succ] at h
      exact Nat.div_lt_of_lt_mul (by omega)
    rw [networkOrder, fromNetwork_append, ih hdiv, UInt8.toNat_ofNat']
    omega

/-- The most significant byte stands in front. -/
theorem networkOrder_succ (k n : Nat) :
    networkOrder (k + 1) n = UInt8.ofNat (n / 256 ^ k) :: networkOrder k n := by
  induction k generalizing n with
  | zero => simp [networkOrder]
  | succ k ih =>
    rw [networkOrder, ih, networkOrder, Nat.div_div_eq_div_mul, ← Nat.pow_succ']
    rfl

end TelemetryTestbed.Lib

import Mathlib.Data.Int.DivMod
import Mathlib.Data.Nat.ModEq
import TelemetryTestbed.Lib.Bytes

/-!
# Little-endian numbers

Numbers in a fixed number of bytes, least significant byte first. Reading a number
without a sign gives back what fits the bytes (`fromLittleEndian_littleEndian`), and
reading it in two's complement what fits them with a sign (`signedLittleEndian_of_fits`).

The bytes are those that a program stores with shifts and masks; that the shifts agree with
the division here is shown where the program is. Reading takes the bytes as they come, so a
field of a fixed size is read back whatever follows it.
-/

namespace TelemetryTestbed.Lib

/-- The number `n` in `k` bytes, least significant byte first. -/
def littleEndian : Nat → Nat → Bytes
  | 0, _ => []
  | k + 1, n => UInt8.ofNat n :: littleEndian k (n / 256)

/-- The number that stands in the bytes, least significant byte first. -/
def fromLittleEndian : Bytes → Nat
  | [] => 0
  | b :: bytes => b.toNat + 256 * fromLittleEndian bytes

/-- The number in two's complement. -/
def signedLittleEndian (bytes : Bytes) : Int :=
  (fromLittleEndian bytes : Int).bmod (256 ^ bytes.length)

@[simp] theorem length_littleEndian (k n : Nat) : (littleEndian k n).length = k := by
  induction k generalizing n with
  | zero => rfl
  | succ k ih => rw [littleEndian, List.length_cons, ih]

theorem fromLittleEndian_littleEndian (k n : Nat) :
    fromLittleEndian (littleEndian k n) = n % 256 ^ k := by
  induction k generalizing n with
  | zero => rw [Nat.pow_zero, Nat.mod_one]; rfl
  | succ k ih =>
    have hlow : (UInt8.ofNat n).toNat = n % 256 := UInt8.toNat_ofNat'
    rw [littleEndian, fromLittleEndian, ih, hlow, Nat.pow_succ', Nat.mod_mul]

/-- What fits the bytes with a sign is read back. -/
theorem signedLittleEndian_of_fits {k n : Nat} {v : Int} (hmod : (n : Int) % 256 ^ k = v % 256 ^ k)
    (hlow : -(256 ^ k : Int) ≤ 2 * v) (hhigh : 2 * v < 256 ^ k) :
    signedLittleEndian (littleEndian k n) = v := by
  rw [signedLittleEndian, length_littleEndian, fromLittleEndian_littleEndian]
  have hcast : ((n % 256 ^ k : Nat) : Int) = v % ((256 ^ k : Nat) : Int) := by
    push_cast
    exact hmod
  rw [hcast, Int.emod_bmod]
  refine Int.bmod_eq_of_le_mul_two ?_ ?_
  · push_cast
    omega
  · push_cast
    omega

end TelemetryTestbed.Lib

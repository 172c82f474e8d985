import Mathlib.Data.List.Induction
import Mathlib.Data.Nat.Digits.Lemmas
import TelemetryTestbed.Lib.Bytes

/-!
# Decimal numerals

Integers as `%d`, `%u` and their long forms print them, and numbers of a fixed
count of digits. A numeral is read back by `ofDigits10`, so two numbers with the
same numeral are equal (`decimal_injective`).

Only the numbers themselves are printed here: there is no width, no precision and no plus
sign. A numeral of a natural number has no leading zero unless it is the numeral of zero, and
`fixedDigits` pads to the left and cuts to the last digits, as `%0kd` of a number that fits.
-/

namespace TelemetryTestbed.Lib

/-- The ASCII digit of a number below ten. -/
def digitByte (d : Nat) : UInt8 := UInt8.ofNat (48 + d)

/-- A natural number, without leading zeros. -/
def decimalNat (n : Nat) : Bytes :=
  if n = 0 then [48] else (Nat.digits 10 n).reverse.map digitByte

/-- An integer, with a minus sign if it is negative. -/
def decimal (n : Int) : Bytes :=
  if n < 0 then 45 :: decimalNat n.natAbs else decimalNat n.natAbs

/-- The last `k` digits of a number, leading zeros included. -/
def fixedDigits : Nat → Nat → Bytes
  | 0, _ => []
  | k + 1, n => fixedDigits k (n / 10) ++ [digitByte (n % 10)]

/-- The number a string of digits stands for. -/
def ofDigits10 (ds : Bytes) : Nat := ds.foldl (fun n d => 10 * n + (d.toNat - 48)) 0

theorem toNat_digitByte {d : Nat} (h : d < 10) : (digitByte d).toNat = 48 + d := by
  rw [digitByte, UInt8.toNat_ofNat']
  exact Nat.mod_eq_of_lt (by omega)

theorem isdigit_iff {b : UInt8} : isdigit b = true ↔ 48 ≤ b.toNat ∧ b.toNat ≤ 57 := by
  unfold isdigit
  rw [Bool.and_eq_true, decide_eq_true_eq, decide_eq_true_eq, UInt8.le_iff_toNat_le,
    UInt8.le_iff_toNat_le]
  exact Iff.rfl

theorem isdigit_digitByte {d : Nat} (h : d < 10) : isdigit (digitByte d) = true := by
  rw [isdigit_iff, toNat_digitByte h]
  omega

theorem ofDigits10_concat (ds : Bytes) (d : UInt8) :
    ofDigits10 (ds ++ [d]) = 10 * ofDigits10 ds + (d.toNat - 48) := by
  rw [ofDigits10, List.foldl_append]
  rfl

theorem ofDigits10_append (u v : Bytes) :
    ofDigits10 (u ++ v) = ofDigits10 u * 10 ^ v.length + ofDigits10 v := by
  induction v using List.reverseRecOn with
  | nil => rw [List.append_nil, List.length_nil, Nat.pow_zero, Nat.mul_one]; rfl
  | append_singleton v d ih =>
    rw [← List.append_assoc, ofDigits10_concat, ofDigits10_concat, ih, List.length_append,
      List.length_singleton, Nat.pow_succ]
    ring

theorem ofDigits10_eq_zero_iff {ds : Bytes} (h : ∀ d ∈ ds, isdigit d = true) :
    ofDigits10 ds = 0 ↔ ∀ d ∈ ds, d = 48 := by
  induction ds using List.reverseRecOn with
  | nil => exact ⟨fun _ d hd => absurd hd List.not_mem_nil, fun _ => rfl⟩
  | append_singleton ds d ih =>
    have hd := isdigit_iff.mp (h d (List.mem_append_right ds List.mem_cons_self))
    have hzero : d.toNat - 48 = 0 ↔ d = 48 := by
      rw [← UInt8.toNat_inj]
      have h48 : (48 : UInt8).toNat = 48 := rfl
      omega
    rw [ofDigits10_concat, Nat.add_eq_zero_iff, Nat.mul_eq_zero, hzero,
      ih fun x hx => h x (List.mem_append_left _ hx)]
    constructor
    · rintro ⟨hds, hlast⟩ x hx
      rcases List.mem_append.mp hx with hx | hx
      · exact hds.resolve_left (by decide) x hx
      · rw [List.mem_singleton.mp hx, hlast]
    · intro hall
      exact ⟨Or.inr fun x hx => hall x (List.mem_append_left _ hx),
        hall d (List.mem_append_right ds List.mem_cons_self)⟩

theorem ofDigits10_reverse_map {ds : List Nat} (h : ∀ d ∈ ds, d < 10) :
    ofDigits10 (ds.reverse.map digitByte) = Nat.ofDigits 10 ds := by
  induction ds with
  | nil => rfl
  | cons d ds ih =>
    rw [List.reverse_cons, List.map_append, List.map_singleton, ofDigits10_concat,
      ih fun x hx => h x (List.mem_cons_of_mem _ hx), toNat_digitByte (h d List.mem_cons_self),
      Nat.ofDigits_cons, Nat.add_sub_cancel_left, Nat.add_comm]

@[simp] theorem ofDigits10_decimalNat (n : Nat) : ofDigits10 (decimalNat n) = n := by
  unfold decimalNat
  split
  next h => exact h.symm
  next =>
    rw [ofDigits10_reverse_map fun d hd => Nat.digits_lt_base (by decide) hd,
      Nat.ofDigits_digits]

theorem isdigit_decimalNat {n : Nat} {b : UInt8} (h : b ∈ decimalNat n) : isdigit b = true := by
  unfold decimalNat at h
  split at h
  next =>
    rw [List.mem_singleton.mp h]
    rfl
  next =>
    obtain ⟨d, hd, rfl⟩ := List.mem_map.mp h
    exact isdigit_digitByte (Nat.digits_lt_base (by decide) (List.mem_reverse.mp hd))

theorem decimalNat_ne_nil (n : Nat) : decimalNat n ≠ [] := by
  intro h
  unfold decimalNat at h
  split at h
  next => cases h
  next hn =>
    rw [List.map_eq_nil_iff, List.reverse_eq_nil_iff, Nat.digits_eq_nil_iff_eq_zero] at h
    exact hn h

/-- A numeral starts with a zero only if it is `0`. -/
theorem decimalNat_head {n : Nat} {ds : Bytes} (h : decimalNat n = 48 :: ds) : ds = [] := by
  unfold decimalNat at h
  split at h
  next =>
    exact (List.cons.inj h).2.symm
  next hn =>
    exfalso
    have hne : Nat.digits 10 n ≠ [] := Nat.digits_ne_nil_iff_ne_zero.mpr hn
    have hlast := Nat.getLast_digit_ne_zero 10 hn
    have hlt := Nat.digits_lt_base (b := 10) (m := n) (by decide) (List.getLast_mem hne)
    have hhead : (Nat.digits 10 n).reverse.map digitByte =
        digitByte ((Nat.digits 10 n).getLast hne) ::
          (Nat.digits 10 n).reverse.tail.map digitByte := by
      rw [← List.map_cons]
      congr 1
      rw [← List.head_reverse (by simpa using hne), List.cons_head_tail]
    rw [hhead] at h
    have hbyte := congrArg UInt8.toNat (List.cons.inj h).1
    rw [toNat_digitByte hlt] at hbyte
    have h48 : (48 : UInt8).toNat = 48 := rfl
    omega

theorem decimal_ne_nil (n : Int) : decimal n ≠ [] := by
  unfold decimal
  split
  · exact List.cons_ne_nil _ _
  · exact decimalNat_ne_nil _

/-- The bytes of a numeral. -/
theorem mem_decimal {n : Int} {b : UInt8} (h : b ∈ decimal n) :
    b = 45 ∨ isdigit b = true := by
  unfold decimal at h
  split at h
  next =>
    rcases List.mem_cons.mp h with h | h
    · exact Or.inl h
    · exact Or.inr (isdigit_decimalNat h)
  next => exact Or.inr (isdigit_decimalNat h)

theorem minus_notMem_decimalNat (n : Nat) : (45 : UInt8) ∉ decimalNat n := fun h => by
  have hdigit := isdigit_decimalNat h
  cases hdigit

theorem decimal_injective : Function.Injective decimal := by
  have hnat : ∀ {m n : Nat}, decimalNat m = decimalNat n → m = n := fun h => by
    have hvalue := congrArg ofDigits10 h
    rwa [ofDigits10_decimalNat, ofDigits10_decimalNat] at hvalue
  have hsign : ∀ {m n : Nat}, 45 :: decimalNat m ≠ decimalNat n :=
    fun {_ n} h => minus_notMem_decimalNat n (h ▸ List.mem_cons_self)
  intro m n h
  unfold decimal at h
  split at h
  next hm =>
    split at h
    next hn =>
      have habs := hnat (List.cons.inj h).2
      omega
    next => exact absurd h hsign
  next hm =>
    split at h
    next => exact absurd h.symm hsign
    next hn =>
      have habs := hnat h
      omega

theorem length_fixedDigits (k n : Nat) : (fixedDigits k n).length = k := by
  induction k generalizing n with
  | zero => rfl
  | succ k ih => rw [fixedDigits, List.length_append, ih, List.length_singleton]

theorem isdigit_fixedDigits {k n : Nat} {b : UInt8} (h : b ∈ fixedDigits k n) :
    isdigit b = true := by
  induction k generalizing n with
  | zero => cases h
  | succ k ih =>
    rw [fixedDigits, List.mem_append] at h
    rcases h with h | h
    · exact ih h
    · rw [List.mem_singleton.mp h]
      exact isdigit_digitByte (Nat.mod_lt n (by decide))

/-- Digits behind a numeral are read as its last ones. -/
theorem ofDigits10_append_fixedDigits (ds : Bytes) (k n : Nat) :
    ofDigits10 (ds ++ fixedDigits k n) = ofDigits10 ds * 10 ^ k + n % 10 ^ k := by
  induction k generalizing n with
  | zero => rw [fixedDigits, List.append_nil, Nat.pow_zero, Nat.mod_one, Nat.mul_one, Nat.add_zero]
  | succ k ih =>
    rw [fixedDigits, ← List.append_assoc, ofDigits10_concat, ih,
      toNat_digitByte (Nat.mod_lt n (by decide)), Nat.pow_succ', Nat.mod_mul]
    rw [Nat.mul_left_comm]
    omega

end TelemetryTestbed.Lib

import TelemetryTestbed.Lib.NetworkOrder

/-!
# Base64

The encoding of RFC 4648 with padding: 24 bits at a time as four digits of 6
bits. The decoder is the strict one, which wants zero bits where a group is short. It
undoes the encoding (`base64Decode_base64`), so different inputs are encoded differently.

The encoder is written over digits and numbers, not over shifts and masks, so that it can be
compared with a program that packs bits. Nothing is said about line breaks in the encoded
text, about the URL alphabet, or about input that is not a whole number of bytes.
-/

namespace TelemetryTestbed.Lib

/-- The alphabet, for digits below 64. -/
def base64Char (d : Nat) : UInt8 :=
  UInt8.ofNat (if d < 26 then 65 + d else if d < 52 then 71 + d else if d < 62 then d - 4
    else if d = 62 then 43 else 47)

/-- The first `k` of the four digits of a 24-bit group. -/
def base64Digits (k n : Nat) : Bytes :=
  [n / 64 ^ 3, n / 64 ^ 2, n / 64, n].take k |>.map fun d => base64Char (d % 64)

/-- The encoding; where the last group is short, zero bits fill it up and `=` signs stand for
the missing digits. -/
def base64 : Bytes → Bytes
  | [] => []
  | [a] => base64Digits 2 (fromNetwork [a, 0, 0]) ++ [61, 61]
  | [a, b] => base64Digits 3 (fromNetwork [a, b, 0]) ++ [61]
  | a :: b :: c :: rest => base64Digits 4 (fromNetwork [a, b, c]) ++ base64 rest

/-- The digit that a character stands for. -/
def base64Value (c : UInt8) : Option Nat :=
  if 65 ≤ c ∧ c ≤ 90 then some (c.toNat - 65)
  else if 97 ≤ c ∧ c ≤ 122 then some (c.toNat - 71)
  else if 48 ≤ c ∧ c ≤ 57 then some (c.toNat + 4)
  else if c = 43 then some 62
  else if c = 47 then some 63
  else none

/-- The number that characters write to the base 64, where the ones before wrote `n`. -/
def base64Number : Nat → Bytes → Option Nat
  | n, [] => some n
  | n, c :: cs => (base64Value c).bind fun d => base64Number (n * 64 + d) cs

/-- The bytes of a last group in which `k` digits are missing. -/
def base64Short (k : Nat) (digits : Bytes) : Option Bytes :=
  (base64Number 0 digits).bind fun n =>
    if n % 4 ^ k = 0 then some (networkOrder (3 - k) (n / 4 ^ k)) else none

/-- The decoding: groups of four characters, of which the last one may end in `=` signs. -/
def base64Decode : Bytes → Option Bytes
  | [] => some []
  | c₀ :: c₁ :: c₂ :: c₃ :: rest =>
    if c₃ = 61 then
      if rest ≠ [] then none
      else if c₂ = 61 then base64Short 2 [c₀, c₁]
      else base64Short 1 [c₀, c₁, c₂]
    else do
      let n ← base64Number 0 [c₀, c₁, c₂, c₃]
      let bytes ← base64Decode rest
      return networkOrder 3 n ++ bytes
  | _ => none

/-! ## The round trip -/

theorem base64Char_spec {d : Nat} (h : d < 64) :
    base64Value (base64Char d) = some d ∧ base64Char d ≠ 61 ∧ base64Char d ≠ 0 := by
  have hall : ∀ d : Fin 64,
      base64Value (base64Char d) = some d.val ∧ base64Char d ≠ 61 ∧ base64Char d ≠ 0 := by
    decide
  exact hall ⟨d, h⟩

/-- The characters of digits write the number the digits do. -/
theorem base64Number_map (ds : List Nat) (n : Nat) :
    base64Number n (ds.map fun d => base64Char (d % 64)) =
      some (ds.foldl (fun n d => n * 64 + d % 64) n) := by
  induction ds generalizing n with
  | nil => rfl
  | cons d ds ih =>
    have hd := (base64Char_spec (Nat.mod_lt d (by decide : 0 < 64))).1
    rw [List.map_cons, base64Number, hd, Option.bind_some, ih, List.foldl_cons]

/-- The first `k` digits of a group write its front. -/
theorem base64Number_base64Digits {k n : Nat} (hk : k ≤ 4) (hn : n < 256 ^ 3) :
    base64Number 0 (base64Digits k n) = some (n / 64 ^ (4 - k)) := by
  have hcases : k = 0 ∨ k = 1 ∨ k = 2 ∨ k = 3 ∨ k = 4 := by omega
  rw [base64Digits, base64Number_map]
  rcases hcases with rfl | rfl | rfl | rfl | rfl <;>
    · simp only [List.take_succ_cons, List.take_zero, List.foldl_cons, List.foldl_nil]
      congr 1
      omega

theorem networkOrder_fromNetwork (bytes : Bytes) :
    networkOrder bytes.length (fromNetwork bytes) = bytes := by
  induction bytes using List.reverseRecOn with
  | nil => rfl
  | append_singleton bytes b ih =>
    have hb : b.toNat < 256 := b.toNat_lt
    have hdiv : (256 * fromNetwork bytes + b.toNat) / 256 = fromNetwork bytes := by omega
    have hlast : UInt8.ofNat (256 * fromNetwork bytes + b.toNat) = b := by
      apply UInt8.toNat_inj.mp
      rw [UInt8.toNat_ofNat']
      omega
    rw [List.length_append, List.length_singleton, networkOrder, fromNetwork_append, hdiv, hlast,
      ih]

/-- Bytes behind which zeros fill the group up. -/
theorem base64Short_base64Digits (k : Nat) (bytes : Bytes) (hk : k ≤ 3)
    (hbytes : bytes.length = 3 - k) :
    base64Short k (base64Digits (4 - k) (fromNetwork bytes * 256 ^ k)) = some bytes := by
  have hlt := fromNetwork_lt bytes
  have hgroup : fromNetwork bytes * 256 ^ k < 256 ^ 3 := by
    calc fromNetwork bytes * 256 ^ k < 256 ^ bytes.length * 256 ^ k :=
          Nat.mul_lt_mul_of_pos_right hlt (Nat.pow_pos (by decide))
      _ = 256 ^ 3 := by rw [← Nat.pow_add, hbytes, Nat.sub_add_cancel hk]
  have hpow : 256 ^ k = 4 ^ k * 64 ^ k := by rw [← Nat.mul_pow]
  have hdigits : fromNetwork bytes * 256 ^ k / 64 ^ (4 - (4 - k)) = fromNetwork bytes * 4 ^ k := by
    have hsub : 4 - (4 - k) = k := by omega
    rw [hsub, hpow, ← Nat.mul_assoc, Nat.mul_div_cancel _ (Nat.pow_pos (by decide))]
  rw [base64Short, base64Number_base64Digits (by omega) hgroup, hdigits, Option.bind_some,
    if_pos (Nat.mul_mod_left _ _), Nat.mul_div_cancel _ (Nat.pow_pos (by decide)), ← hbytes,
    networkOrder_fromNetwork]

theorem base64Decode_three {c₀ c₁ c₂ : UInt8} (h : c₂ ≠ 61) :
    base64Decode [c₀, c₁, c₂, 61] = base64Short 1 [c₀, c₁, c₂] := by
  simp [base64Decode, h]

theorem base64Decode_four {c₀ c₁ c₂ c₃ : UInt8} {rest bytes : Bytes} {n : Nat} (h : c₃ ≠ 61)
    (hn : base64Number 0 [c₀, c₁, c₂, c₃] = some n) (hrest : base64Decode rest = some bytes) :
    base64Decode (c₀ :: c₁ :: c₂ :: c₃ :: rest) = some (networkOrder 3 n ++ bytes) := by
  simp [base64Decode, h, hn, hrest]

/-- Decoding gives back what was encoded. -/
theorem base64Decode_base64 (x : Bytes) : base64Decode (base64 x) = some x := by
  have hchar (d : Nat) : base64Char (d % 64) ≠ 61 :=
    (base64Char_spec (Nat.mod_lt d (by decide : 0 < 64))).2.1
  fun_induction base64 x with
  | case1 => rfl
  | case2 a =>
    have hgroup : fromNetwork [a, 0, 0] = fromNetwork [a] * 256 ^ 2 := by
      simp [fromNetwork]
      omega
    have hshort := base64Short_base64Digits 2 [a] (by decide) rfl
    rw [← hgroup] at hshort
    exact hshort
  | case3 a b =>
    have hgroup : fromNetwork [a, b, 0] = fromNetwork [a, b] * 256 ^ 1 := by
      simp [fromNetwork]
      omega
    have hshort := base64Short_base64Digits 1 [a, b] (by decide) rfl
    rw [← hgroup] at hshort
    exact (base64Decode_three (hchar _)).trans hshort
  | case4 a b c rest ih =>
    have hnumber := base64Number_base64Digits (k := 4) (by decide) (fromNetwork_lt [a, b, c])
    have hbytes := networkOrder_fromNetwork [a, b, c]
    refine (base64Decode_four (hchar _) hnumber ih).trans ?_
    rw [Nat.sub_self, Nat.pow_zero, Nat.div_one]
    exact congrArg (fun group => some (group ++ rest)) hbytes

theorem zero_notMem_base64Digits (k n : Nat) : (0 : UInt8) ∉ base64Digits k n := by
  intro h
  obtain ⟨d, _, hd⟩ := List.mem_map.mp h
  exact (base64Char_spec (Nat.mod_lt d (by decide : 0 < 64))).2.2 hd

/-- The encoding is a string. -/
theorem zero_notMem_base64 (x : Bytes) : (0 : UInt8) ∉ base64 x := by
  fun_induction base64 x with
  | case1 => exact List.not_mem_nil
  | case2 a => simp [zero_notMem_base64Digits]
  | case3 a b => simp [zero_notMem_base64Digits]
  | case4 a b c rest ih => simp [zero_notMem_base64Digits, ih]

/-- Different inputs are encoded differently. -/
theorem base64_injective {x y : Bytes} (h : base64 x = base64 y) : x = y := by
  have hx := base64Decode_base64 x
  rw [h, base64Decode_base64] at hx
  exact (Option.some.inj hx).symm

end TelemetryTestbed.Lib

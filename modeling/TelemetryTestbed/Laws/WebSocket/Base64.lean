import TelemetryTestbed.Laws.WebSocket.Digest
import TelemetryTestbed.Laws.WebSocket.Headers
import TelemetryTestbed.WebSocket.Base64

/-!
# The Base64 encoder

A round of the loop takes up to three bytes of the input and stores the four characters
of their group (`base64EncodeLoop_round`), so the buffer holds the encoding of what has
been read, and the reads and stores stay inside of the buffers.

The proof goes by the groups of three bytes, with the invariant that the buffer holds the
encoding of what has been read and then what it held before. A length that does not fit the
`int` that is returned is the one thing that goes wrong, and a buffer that long is needed for
it.
-/

namespace TelemetryTestbed.WebSocket

open TelemetryTestbed.Lib

variable {input front tail rest done : Bytes} {inlen i j : UInt64} {a b c t : UInt8} {n k : Nat}

/-- A store behind what has been written. -/
theorem storeAt_append (mid : Bytes) (hj : j.toNat = done.length + mid.length) (t c : UInt8)
    (tail : Bytes) :
    storeAt (done ++ (mid ++ t :: tail)) j c = some (done ++ (mid ++ c :: tail)) := by
  have hlt : j.toNat < (done ++ (mid ++ t :: tail)).length := by
    simp only [List.length_append, List.length_cons]
    omega
  rw [storeAt, if_pos hlt, hj, List.set_append_right _ _ (Nat.le_add_right _ _),
    Nat.add_sub_cancel_left, List.set_append_right _ _ le_rfl, Nat.sub_self]
  rfl

/-- One round, with `k` bytes left at its start. -/
theorem base64EncodeLoop_round (hinlen : inlen.toNat = input.length) (hk : 0 < k)
    (hi : i.toNat + k = input.length) (ha : input[i.toNat]? = some a)
    (hb : (if 1 < k then input[i.toNat + 1]? else some 0) = some b)
    (hc : (if 2 < k then input[i.toNat + 2]? else some 0) = some c)
    (hj : j.toNat = done.length) (hdone : done.length + 4 < 2 ^ 64) (t₀ t₁ t₂ t₃ : UInt8)
    (tail : Bytes) :
    ∃ i' j' : UInt64, i'.toNat = i.toNat + min k 3 ∧ j'.toNat = done.length + 4 ∧
      base64EncodeLoop input inlen (n + 1) (done ++ t₀ :: t₁ :: t₂ :: t₃ :: tail) i j =
        base64EncodeLoop input inlen n (done ++ b64Group k a b c ++ tail) i' j' := by
  have hlt : i < inlen := by
    rw [UInt64.lt_iff_toNat_lt]
    omega
  have hrem : (inlen - i).toNat = k := by
    rw [UInt64.toNat_sub_of_le _ _ (UInt64.le_of_lt hlt)]
    omega
  have hrem1 : inlen - i > 1 ↔ 1 < k := by rw [gt_iff_lt, UInt64.lt_iff_toNat_lt, hrem]; rfl
  have hrem2 : inlen - i > 2 ↔ 2 < k := by rw [gt_iff_lt, UInt64.lt_iff_toNat_lt, hrem]; rfl
  have hnext {x : UInt64} (hx : x.toNat + 1 < 2 ^ 64) : (x + 1).toNat = x.toNat + 1 := by
    rw [UInt64.toNat_add]
    exact Nat.mod_eq_of_lt hx
  have hbound := inlen.toNat_lt
  have hi₁ : (i + 1).toNat = i.toNat + 1 := hnext (by omega)
  have hj₁ : (j + 1).toNat = done.length + 1 := by rw [hnext (by omega), hj]
  have hj₂ : (j + 1 + 1).toNat = done.length + 2 := by rw [hnext (by omega), hj₁]
  have hj₃ : (j + 1 + 1 + 1).toNat = done.length + 3 := by rw [hnext (by omega), hj₂]
  have hj₄ : (j + 1 + 1 + 1 + 1).toNat = done.length + 4 := by rw [hnext (by omega), hj₃]
  have h₁ (c : UInt8) : storeAt (done ++ t₀ :: t₁ :: t₂ :: t₃ :: tail) j c =
      some (done ++ c :: t₁ :: t₂ :: t₃ :: tail) := storeAt_append [] hj t₀ c _
  have h₂ (c₀ c : UInt8) : storeAt (done ++ c₀ :: t₁ :: t₂ :: t₃ :: tail) (j + 1) c =
      some (done ++ c₀ :: c :: t₂ :: t₃ :: tail) := storeAt_append [c₀] hj₁ t₁ c _
  have h₃ (c₀ c₁ c : UInt8) : storeAt (done ++ c₀ :: c₁ :: t₂ :: t₃ :: tail) (j + 1 + 1) c =
      some (done ++ c₀ :: c₁ :: c :: t₃ :: tail) := storeAt_append [c₀, c₁] hj₂ t₂ c _
  have h₄ (c₀ c₁ c₂ c : UInt8) :
      storeAt (done ++ c₀ :: c₁ :: c₂ :: t₃ :: tail) (j + 1 + 1 + 1) c =
        some (done ++ c₀ :: c₁ :: c₂ :: c :: tail) := storeAt_append [c₀, c₁, c₂] hj₃ t₃ c _
  -- how many bytes the round reads
  have hcases : k = 1 ∨ k = 2 ∨ 2 < k := by omega
  rcases hcases with rfl | rfl | hk3
  · refine ⟨i + 1, j + 1 + 1 + 1 + 1, hi₁, hj₄, ?_⟩
    simp only [Nat.lt_irrefl, if_false, Option.some.injEq, Nat.reduceLT] at hb hc
    subst hb hc
    simp [base64EncodeLoop, hlt, hrem1, hrem2, ha, h₁, h₂, h₃, h₄, b64Group]
  · refine ⟨i + 1 + 1, j + 1 + 1 + 1 + 1, ?_, hj₄, ?_⟩
    · rw [hnext (by omega), hi₁]
      rfl
    simp only [Nat.lt_irrefl, if_false, if_true, Option.some.injEq, Nat.reduceLT] at hb hc
    subst hc
    simp [base64EncodeLoop, hlt, hrem1, hrem2, ha, hi₁, hb, h₁, h₂, h₃, h₄, b64Group]
  · have hk1 : 1 < k := by omega
    have hi₂ : (i + 1 + 1).toNat = i.toNat + 2 := by rw [hnext (by omega), hi₁]
    refine ⟨i + 1 + 1 + 1, j + 1 + 1 + 1 + 1, ?_, hj₄, ?_⟩
    · rw [hnext (by omega), hi₂, Nat.min_eq_right hk3]
    rw [if_pos hk1] at hb
    rw [if_pos hk3] at hc
    simp [base64EncodeLoop, hlt, hrem1, hrem2, hk1, hk3, ha, hi₁, hi₂, hb, hc, h₁, h₂, h₃, h₄,
      b64Group]

theorem base64EncodeLoop_end (hinlen : inlen.toNat = input.length) (hi : i.toNat = input.length)
    (n : Nat) (out : Bytes) (j : UInt64) :
    base64EncodeLoop input inlen (n + 1) out i j = some (out, j) := by
  have hlt : ¬ i < inlen := by
    rw [UInt64.lt_iff_toNat_lt]
    omega
  rw [base64EncodeLoop, if_neg hlt]

theorem exists_four_of_le {tail : Bytes} (h : 4 ≤ tail.length) :
    ∃ t₀ t₁ t₂ t₃ tail', tail = t₀ :: t₁ :: t₂ :: t₃ :: tail' := by
  match tail, h with
  | t₀ :: t₁ :: t₂ :: t₃ :: tail', _ => exact ⟨t₀, t₁, t₂, t₃, tail', rfl⟩

/-- The loop writes the encoding of what is left of the input. -/
theorem base64EncodeLoop_eq (hinlen : inlen.toNat = input.length)
    (hrest : input.drop i.toNat = rest) (hi : i.toNat ≤ input.length)
    (hj : j.toNat = done.length) (hdone : done.length + (base64Loop rest).length < 2 ^ 64)
    (htail : (base64Loop rest).length ≤ tail.length) (hn : rest.length < n) :
    ∃ j' : UInt64, j'.toNat = done.length + (base64Loop rest).length ∧
      base64EncodeLoop input inlen n (done ++ tail) i j =
        some (done ++ (base64Loop rest ++ tail.drop (base64Loop rest).length), j') := by
  have hlength : i.toNat + rest.length = input.length := by
    rw [← hrest, List.length_drop]
    omega
  have hget (m : Nat) : input[i.toNat + m]? = rest[m]? := by rw [← hrest, List.getElem?_drop]
  have ha : input[i.toNat]? = rest[0]? := hget 0
  fun_induction base64Loop rest generalizing i j n done tail with
  | case1 =>
    obtain ⟨n, rfl⟩ := Nat.exists_eq_succ_of_ne_zero (Nat.ne_of_gt hn)
    refine ⟨j, hj, ?_⟩
    rw [base64EncodeLoop_end hinlen hlength]
    simp
  | case2 a =>
    obtain ⟨t₀, t₁, t₂, t₃, tail, rfl⟩ := exists_four_of_le htail
    obtain ⟨n, rfl⟩ : ∃ n', n = n' + 2 := ⟨n - 2, by simp at hn; omega⟩
    obtain ⟨i', j', hi', hj', hround⟩ := base64EncodeLoop_round (n := n + 1) hinlen Nat.one_pos
      hlength ha rfl rfl hj hdone t₀ t₁ t₂ t₃ tail
    refine ⟨j', hj', ?_⟩
    rw [hround, base64EncodeLoop_end hinlen (hi'.trans hlength)]
    simp [b64Group]
  | case3 a b =>
    obtain ⟨t₀, t₁, t₂, t₃, tail, rfl⟩ := exists_four_of_le htail
    obtain ⟨n, rfl⟩ : ∃ n', n = n' + 2 := ⟨n - 2, by simp at hn; omega⟩
    obtain ⟨i', j', hi', hj', hround⟩ := base64EncodeLoop_round (n := n + 1) hinlen Nat.two_pos
      hlength ha (hget 1) rfl hj hdone t₀ t₁ t₂ t₃ tail
    refine ⟨j', hj', ?_⟩
    rw [hround, base64EncodeLoop_end hinlen (hi'.trans hlength)]
    simp [b64Group]
  | case4 a b c rest ih =>
    have hgroup : (b64Group (rest.length + 3) a b c).length = 4 := rfl
    rw [List.length_append, hgroup] at hdone htail
    obtain ⟨t₀, t₁, t₂, t₃, tail, rfl⟩ := exists_four_of_le (Nat.le_of_add_right_le htail)
    obtain ⟨n, rfl⟩ := Nat.exists_eq_succ_of_ne_zero (Nat.ne_of_gt (Nat.zero_lt_of_lt hn))
    obtain ⟨i', j', hi', hj', hround⟩ := base64EncodeLoop_round (n := n) hinlen
      (Nat.succ_pos (rest.length + 2)) hlength ha
      ((if_pos (by omega)).trans (hget 1)) ((if_pos (by omega)).trans (hget 2)) hj (by omega)
      t₀ t₁ t₂ t₃ tail
    rw [Nat.min_eq_right (by omega)] at hi'
    have hrest' : input.drop i'.toNat = rest := by
      rw [hi', ← List.drop_drop, hrest]
      rfl
    have hlength' : i'.toNat + rest.length = input.length := by
      rw [hi', ← hlength, List.length_cons, List.length_cons, List.length_cons]
      omega
    have hget' (m : Nat) : input[i'.toNat + m]? = rest[m]? := by
      rw [← hrest', List.getElem?_drop]
    simp only [List.length_cons] at htail hn
    obtain ⟨j'', hj'', hloop⟩ := @ih tail (done ++ b64Group (rest.length + 3) a b c) i' j' n
      hrest' (by omega) (by simpa [hgroup] using hj') (by simp [hgroup]; omega) (by omega)
      (by omega) hlength' hget' (hget' 0)
    refine ⟨j'', ?_, ?_⟩
    · rw [hj'']
      simp [hgroup, Nat.add_assoc]
    · rw [hround, hloop, List.length_append, hgroup]
      simp [Nat.add_comm 4]

/-! ## The encoder -/

theorem length_base64 (input : Bytes) : (base64 input).length = 4 * ((input.length + 2) / 3) := by
  rw [← base64Loop_eq, length_base64Loop]

/-- A buffer that is too small is left as it is; in any other stands the encoding with its
NUL, and the length is returned as an `int`. -/
theorem base64EncodeAt_eq (input out : CBuffer) :
    base64EncodeAt input out =
      if out.bytes.length < (base64 input.bytes).length + 1 then some (out.bytes, -1)
      else some (base64 input.bytes ++ 0 :: out.bytes.drop ((base64 input.bytes).length + 1),
        .ofNat (base64 input.bytes).length) := by
  have hin := input.length_lt
  have hout := out.length_lt
  have hinlen : (UInt64.ofNat input.bytes.length).toNat = input.bytes.length :=
    UInt64.toNat_ofNat_of_lt' (hin.trans (by decide))
  have houtcap : (UInt64.ofNat out.bytes.length).toNat = out.bytes.length :=
    UInt64.toNat_ofNat_of_lt' (hout.trans (by decide))
  have holen : (4 * ((UInt64.ofNat input.bytes.length + 2) / 3) + 1).toNat =
      (base64 input.bytes).length + 1 := by
    have h2 : (2 : UInt64).toNat = 2 := rfl
    have h3 : (3 : UInt64).toNat = 3 := rfl
    have h4 : (4 : UInt64).toNat = 4 := rfl
    have h1 : (1 : UInt64).toNat = 1 := rfl
    rw [length_base64, UInt64.toNat_add, UInt64.toNat_mul, UInt64.toNat_div, UInt64.toNat_add,
      hinlen, h1, h2, h3, h4]
    omega
  have hsmall : UInt64.ofNat out.bytes.length <
      4 * ((UInt64.ofNat input.bytes.length + 2) / 3) + 1 ↔
        out.bytes.length < (base64 input.bytes).length + 1 := by
    rw [UInt64.lt_iff_toNat_lt, holen, houtcap]
  unfold base64EncodeAt
  dsimp only
  by_cases h : out.bytes.length < (base64 input.bytes).length + 1
  · rw [if_pos (hsmall.mpr h), if_pos h]
  · rw [if_neg (mt hsmall.mp h), if_neg h]
    have henc := base64Loop_eq input.bytes
    obtain ⟨j, hj, hloop⟩ : ∃ j : UInt64, j.toNat = 0 + (base64 input.bytes).length ∧
        base64EncodeLoop input.bytes (.ofNat input.bytes.length) (input.bytes.length + 1)
          ([] ++ out.bytes) 0 0 = some ([] ++ (base64 input.bytes ++
            out.bytes.drop (base64 input.bytes).length), j) := by
      rw [← henc] at h ⊢
      have hrest : input.bytes.drop (0 : UInt64).toNat = input.bytes := List.drop_zero
      have hfits : (base64Loop input.bytes).length ≤ out.bytes.length := by omega
      have hbound : ([] : Bytes).length + (base64Loop input.bytes).length < 2 ^ 64 := by
        rw [List.length_nil]
        omega
      exact base64EncodeLoop_eq hinlen hrest (Nat.zero_le _) rfl hbound hfits
        (Nat.lt_succ_self _)
    rw [Nat.zero_add] at hj
    obtain ⟨t, hdrop⟩ : ∃ t, out.bytes.drop (base64 input.bytes).length =
        t :: out.bytes.drop ((base64 input.bytes).length + 1) :=
      ⟨_, List.drop_eq_getElem_cons (by omega)⟩
    have hnul : storeAt (base64 input.bytes ++ out.bytes.drop (base64 input.bytes).length) j 0 =
        some (base64 input.bytes ++ 0 :: out.bytes.drop ((base64 input.bytes).length + 1)) := by
      rw [hdrop]
      exact storeAt_append [] hj t 0 _
    simp only [List.nil_append] at hloop
    simp [hloop, hnul, hj]

/-- What is written is what `base64Encode` answers. -/
theorem base64EncodeAt_eq_base64Encode (input out : CBuffer) :
    base64EncodeAt input out =
      match base64Encode input.bytes out.bytes.length with
      | none => some (out.bytes, -1)
      | some text => some (text ++ 0 :: out.bytes.drop (text.length + 1), .ofNat text.length) := by
  rw [base64EncodeAt_eq, base64Encode, base64Loop_eq, ← length_base64]
  split <;> rfl

/-- **The encoder in memory computes Base64.** For any input and any output buffer, of fewer
than 2^63 bytes each, as objects in memory have: where the output has room for the encoding and
a NUL, the encoding stands at its front with the NUL behind it and the rest of the buffer is as
it was, so that decoding it gives the input back; where it has none, -1 is returned and nothing
is stored. No round reads or stores outside of the two buffers. What is returned is the length
of the encoding converted to `int`, which is that length below 2^31 and wraps from there on. -/
theorem base64EncodeAt_spec (input out : CBuffer) :
    let olen := 4 * ((input.bytes.length + 2) / 3)
    (out.bytes.length < olen + 1 → base64EncodeAt input out = some (out.bytes, -1)) ∧
      (olen + 1 ≤ out.bytes.length → ∃ out',
        base64EncodeAt input out = some (out', .ofNat olen) ∧
          out' = base64 input.bytes ++ 0 :: out.bytes.drop (olen + 1) ∧
          (base64 input.bytes).length = olen ∧ base64Decode (cstr out') = some input.bytes ∧
          (olen < 2 ^ 31 → (Int32.ofNat olen).toInt = olen)) := by
  have heq := base64EncodeAt_eq input out
  rw [length_base64] at heq
  refine ⟨fun h => heq.trans (if_pos h), fun h => ⟨_, heq.trans (if_neg (not_lt.mpr h)), rfl,
    length_base64 _, ?_, fun holen => ?_⟩⟩
  · rw [cstr_append (zero_notMem_base64 _), show cstr (0 :: _) = [] from rfl, List.append_nil,
      base64Decode_base64]
  · exact Int32.toInt_ofNat_of_lt holen

theorem base64EncodeAt_spec_foob :
    ∃ out', base64EncodeAt ⟨ascii "foob", by decide⟩ ⟨List.replicate 16 7, by decide⟩ =
        some (out', .ofNat 8) ∧ base64Decode (cstr out') = some (ascii "foob") := by
  have hlength : (ascii "foob").length = 4 := by decide
  have h := base64EncodeAt_spec ⟨ascii "foob", by decide⟩ ⟨List.replicate 16 7, by decide⟩
  simp only [hlength] at h
  obtain ⟨out', hout, _, _, hdecode, _⟩ := h.2 (by decide)
  exact ⟨out', hout, hdecode⟩

/-- A buffer of zeros. -/
def zeros (n : Nat) (h : n < 2 ^ 63) : CBuffer := ⟨List.replicate n 0, by simpa using h⟩

/-- An encoding of 2^31 characters is written, and its length returned as -2^31. -/
theorem base64EncodeAt_wraps :
    ∃ out', base64EncodeAt (zeros 1610612734 (by decide)) (zeros (2 ^ 31 + 1) (by decide)) =
        some (out', -2147483648) ∧
      4 * (((zeros 1610612734 (by decide)).bytes.length + 2) / 3) = 2147483648 := by
  have hlength : (zeros 1610612734 (by decide)).bytes.length = 1610612734 := List.length_replicate
  have hcap : (zeros (2 ^ 31 + 1) (by decide)).bytes.length = 2 ^ 31 + 1 := List.length_replicate
  have heq := base64EncodeAt_eq (zeros 1610612734 (by decide)) (zeros (2 ^ 31 + 1) (by decide))
  rw [length_base64, hlength, hcap, if_neg (by decide)] at heq
  exact ⟨_, heq, by rw [hlength]⟩

end TelemetryTestbed.WebSocket

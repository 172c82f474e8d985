import TelemetryTestbed.Lib.Base64
import TelemetryTestbed.Lib.Sha1
import TelemetryTestbed.WebSocket.Sha1

/-!
# The digest and the encoder of the server

`sha1_init`, `sha1_update` and `sha1_final` compute SHA-1 and `base64_encode`
computes Base64. The context between two updates is described by `Absorbed`: the
message so far has been chained into the state but for the part in the buffer.

The number of bytes in the buffer is the count of all bytes modulo 64, which is what the code
computes from its bit count; the bound on the message keeps that count within 64 bits. The
rounds of a block are compared with the standard word by word.
-/

namespace TelemetryTestbed.WebSocket

open TelemetryTestbed.Lib

/-! ## Words -/

theorem toNat_or_of_lt {x y i : Nat} (hy : y < 2 ^ i) : x <<< i ||| y = x * 2 ^ i + y := by
  rw [← Nat.shiftLeft_add_eq_or_of_lt hy, Nat.shiftLeft_eq]

theorem fromNetwork_four (a b c d : UInt8) : fromNetwork [a, b, c, d] =
    ((a.toNat * 256 + b.toNat) * 256 + c.toNat) * 256 + d.toNat := by
  simp only [fromNetwork, List.foldl_cons, List.foldl_nil]
  omega

/-- Four bytes shifted into place are the number they stand for. -/
theorem word_eq (a b c d : UInt8) :
    (a.toUInt32 <<< 24) ||| (b.toUInt32 <<< 16) ||| (c.toUInt32 <<< 8) ||| d.toUInt32 =
      UInt32.ofNat (fromNetwork [a, b, c, d]) := by
  have ha := a.toNat_lt
  have hb : b.toNat < 2 ^ 8 := b.toNat_lt
  have hc : c.toNat < 2 ^ 8 := c.toNat_lt
  have hd : d.toNat < 2 ^ 8 := d.toNat_lt
  have hshift : ∀ (x : UInt8) (n : Nat), n ≤ 24 → x.toNat <<< n % 2 ^ 32 = x.toNat <<< n := by
    intro x n hn
    rw [Nat.shiftLeft_eq]
    apply Nat.mod_eq_of_lt
    calc x.toNat * 2 ^ n < 2 ^ 8 * 2 ^ n := Nat.mul_lt_mul_of_pos_right x.toNat_lt (Nat.two_pow_pos n)
      _ ≤ 2 ^ 8 * 2 ^ 24 := Nat.mul_le_mul_left _ (Nat.pow_le_pow_right (by decide) hn)
      _ = 2 ^ 32 := by decide
  have hnest : a.toNat <<< 24 ||| b.toNat <<< 16 ||| c.toNat <<< 8 ||| d.toNat =
      ((a.toNat <<< 8 ||| b.toNat) <<< 8 ||| c.toNat) <<< 8 ||| d.toNat := by
    simp only [Nat.shiftLeft_or_distrib, ← Nat.shiftLeft_add]
  apply UInt32.toNat_inj.mp
  simp only [UInt32.toNat_or, UInt32.toNat_shiftLeft, UInt8.toNat_toUInt32, UInt32.toNat_ofNat']
  rw [show (24 : UInt32).toNat % 32 = 24 from rfl, show (16 : UInt32).toNat % 32 = 16 from rfl,
    show (8 : UInt32).toNat % 32 = 8 from rfl, hshift a 24 (by decide), hshift b 16 (by decide),
    hshift c 8 (by decide), hnest, toNat_or_of_lt hb, toNat_or_of_lt hc, toNat_or_of_lt hd,
    fromNetwork_four]
  omega

theorem rol32_one (x : UInt32) : rol32 x 1 = Sha1.rotl 1 x := by
  apply UInt32.toBitVec_inj.mp
  simp [rol32, Sha1.rotl, BitVec.rotateLeft_def]

theorem rol32_five (x : UInt32) : rol32 x 5 = Sha1.rotl 5 x := by
  apply UInt32.toBitVec_inj.mp
  simp [rol32, Sha1.rotl, BitVec.rotateLeft_def]

theorem rol32_thirty (x : UInt32) : rol32 x 30 = Sha1.rotl 30 x := by
  apply UInt32.toBitVec_inj.mp
  simp [rol32, Sha1.rotl, BitVec.rotateLeft_def]

/-- The program combines the terms of `Ch` and `Maj` with or, the standard with
exclusive or. -/
theorem choose_eq (x y z : UInt32) :
    (x &&& y) ||| (~~~x &&& z) = (x &&& y) ^^^ (~~~x &&& z) := by
  apply UInt32.toBitVec_inj.mp
  apply BitVec.eq_of_getLsbD_eq
  intro i hi
  simp only [UInt32.toBitVec_or, UInt32.toBitVec_and, UInt32.toBitVec_not, UInt32.toBitVec_xor,
    BitVec.getLsbD_or, BitVec.getLsbD_and, BitVec.getLsbD_not, BitVec.getLsbD_xor]
  cases x.toBitVec.getLsbD i <;> simp

theorem majority_eq (x y z : UInt32) :
    (x &&& y) ||| (x &&& z) ||| (y &&& z) = (x &&& y) ^^^ (x &&& z) ^^^ (y &&& z) := by
  apply UInt32.toBitVec_inj.mp
  apply BitVec.eq_of_getLsbD_eq
  intro i hi
  simp only [UInt32.toBitVec_or, UInt32.toBitVec_and, UInt32.toBitVec_xor,
    BitVec.getLsbD_or, BitVec.getLsbD_and, BitVec.getLsbD_xor]
  cases x.toBitVec.getLsbD i <;> cases y.toBitVec.getLsbD i <;> simp

theorem wordBe_eq (x : UInt32) : wordBe x = networkOrder 4 x.toNat := by
  simp only [wordBe, networkOrder, List.nil_append, List.cons_append, List.cons.injEq, and_true]
  refine ⟨?_, ?_, ?_, ?_⟩ <;> apply UInt8.toNat_inj.mp <;>
    simp [Nat.shiftRight_eq_div_pow, Nat.div_div_eq_div_mul]

theorem sha1LenBe_eq (bits : UInt64) : sha1LenBe bits = networkOrder 8 bits.toNat := by
  have hbyte : ∀ n : Nat, n < 64 →
      (bits >>> UInt64.ofNat n).toUInt8 = UInt8.ofNat (bits.toNat / 2 ^ n) := by
    intro n hn
    apply UInt8.toNat_inj.mp
    rw [UInt64.toNat_toUInt8, UInt64.toNat_shiftRight, UInt64.toNat_ofNat', UInt8.toNat_ofNat',
      Nat.shiftRight_eq_div_pow, Nat.mod_eq_of_lt (by omega : n < 2 ^ 64), Nat.mod_eq_of_lt hn]
  have hlist : List.range 8 = [0, 1, 2, 3, 4, 5, 6, 7] := rfl
  simp only [sha1LenBe, hlist, List.map_cons, List.map_nil, networkOrder, List.nil_append,
    List.cons_append, Nat.div_div_eq_div_mul]
  rw [hbyte _ (by decide), hbyte _ (by decide), hbyte _ (by decide), hbyte _ (by decide),
    hbyte _ (by decide), hbyte _ (by decide), hbyte _ (by decide), hbyte _ (by decide)]
  simp

/-! ## The compression function -/

/-- The hash value in the state of a context. -/
def Sha1State.value (s : Sha1State) : Sha1.HashValue := ⟨s.a, s.b, s.c, s.d, s.e⟩

theorem sha1Round_value (s : Sha1State) (t : Nat) (word : UInt32) :
    (sha1Round s t word).value = Sha1.round s.value t word := by
  have hf : (if t < 20 then (s.b &&& s.c) ||| (~~~s.b &&& s.d)
      else if t < 40 then s.b ^^^ s.c ^^^ s.d
      else if t < 60 then (s.b &&& s.c) ||| (s.b &&& s.d) ||| (s.c &&& s.d)
      else s.b ^^^ s.c ^^^ s.d) = Sha1.f t s.b s.c s.d := by
    simp only [Sha1.f, choose_eq, majority_eq]
  simp only [sha1Round, hf, rol32_five, rol32_thirty]
  rfl

theorem sha1Rounds_value (W : Nat → UInt32) (n t : Nat) (s : Sha1State) :
    (sha1Rounds s t ((List.range' t n).map W)).value =
      (List.range' t n).foldl (fun h t => Sha1.round h t (W t)) s.value := by
  induction n generalizing t s with
  | zero => rfl
  | succ n ih =>
    rw [List.range'_succ, List.map_cons, List.foldl_cons, sha1Rounds, ih, sha1Round_value]

theorem blockWord_eq {block : Bytes} {t : Nat} (h : 4 * t + 4 ≤ block.length) :
    blockWord block t = UInt32.ofNat (fromNetwork ((block.drop (4 * t)).take 4)) := by
  have hget : ∀ j, block.getD (t * 4 + j) 0 = (block.drop (4 * t)).getD j 0 := by
    intro j
    simp only [List.getD_eq_getElem?_getD, List.getElem?_drop, Nat.mul_comm]
  have hlen : 4 ≤ (block.drop (4 * t)).length := by
    rw [List.length_drop]
    omega
  unfold blockWord
  rw [show t * 4 = t * 4 + 0 from rfl, hget 0, Nat.add_zero, hget 1, hget 2, hget 3]
  match block.drop (4 * t), hlen with
  | a :: b :: c :: d :: rest, _ => exact word_eq a b c d

/-- The expansion goes on along the recurrence. -/
theorem sha1Expand_eq {block : Bytes} {k : Nat} (hk : 16 ≤ k) (n : Nat) :
    sha1Expand n ((List.range k).map (Sha1.w block)) =
      (List.range (k + n)).map (Sha1.w block) := by
  induction n generalizing k with
  | zero => rfl
  | succ n ih =>
    have hget : ∀ j, j < k → ((List.range k).map (Sha1.w block)).getD j 0 = Sha1.w block j := by
      intro j hj
      simp [List.getD_eq_getElem?_getD, hj]
    have hnext : Sha1.w block k = Sha1.rotl 1 (Sha1.w block (k - 3) ^^^ Sha1.w block (k - 8) ^^^
        Sha1.w block (k - 14) ^^^ Sha1.w block (k - 16)) := by
      rw [Sha1.w, if_neg (by omega)]
    simp only [sha1Expand, List.length_map, List.length_range]
    rw [hget _ (by omega), hget _ (by omega), hget _ (by omega), hget _ (by omega), rol32_one,
      ← hnext, ← List.map_singleton, ← List.map_append, ← List.range_succ, ih (by omega)]
    congr 2
    omega

theorem sha1Schedule_eq {block : Bytes} (h : block.length = 64) :
    sha1Schedule block = (List.range 80).map (Sha1.w block) := by
  have hfirst : (List.range 16).map (blockWord block) = (List.range 16).map (Sha1.w block) := by
    apply List.map_congr_left
    intro t ht
    have ht := List.mem_range.mp ht
    rw [blockWord_eq (by omega), Sha1.w, if_pos ht]
  rw [sha1Schedule, hfirst, sha1Expand_eq (Nat.le_refl 16)]

/-- `sha1_transform` is the compression function. -/
theorem sha1Transform_value {block : Bytes} (h : block.length = 64) (s : Sha1State) :
    (sha1Transform s block).value = Sha1.compress s.value block := by
  have hrounds := sha1Rounds_value (Sha1.w block) 80 0 s
  rw [← List.range_eq_range', ← sha1Schedule_eq h] at hrounds
  unfold sha1Transform Sha1.compress
  rw [← hrounds]
  generalize sha1Rounds s 0 (sha1Schedule block) = r
  rfl

/-! ## The context -/

/-- What the context holds after `message`: the state behind its whole blocks, its length in
bits as far as 64 bits count it, and in front of the buffer the bytes after the last whole
block. -/
structure Absorbed (ctx : Sha1Ctx) (message : Bytes) : Prop where
  state : ctx.state.value =
    (chainBlocks 64 Sha1.compress Sha1.initial message).1
  count : ctx.count.toNat = 8 * message.length % 2 ^ 64
  length : ctx.buffer.length = 64
  buffer : ctx.buffer.take (message.length % 64) =
    (chainBlocks 64 Sha1.compress Sha1.initial message).2

theorem absorbed_init : Absorbed sha1Init [] where
  state := by
    rw [chainBlocks_of_lt (by decide)]
    rfl
  count := rfl
  length := List.length_replicate
  buffer := by
    rw [chainBlocks_of_lt (by decide)]
    rfl

theorem sha1Blocks_eq {n : Nat} {data : Bytes} (h : data.length ≤ n) (s : Sha1State) :
    (sha1Blocks n s data).1.value = (chainBlocks 64 Sha1.compress s.value data).1 ∧
      (sha1Blocks n s data).2 = (chainBlocks 64 Sha1.compress s.value data).2 := by
  induction n generalizing s data with
  | zero =>
    rw [chainBlocks_of_lt (by omega)]
    exact ⟨rfl, rfl⟩
  | succ n ih =>
    simp only [sha1Blocks]
    split
    · next hlong =>
      have hblock : (data.take 64).length = 64 := by
        rw [List.length_take]
        omega
      rw [chainBlocks_of_le (by omega), ← sha1Transform_value hblock]
      apply ih
      rw [List.length_drop]
      omega
    · next hshort =>
      rw [chainBlocks_of_lt (by omega)]
      exact ⟨rfl, rfl⟩

theorem length_memcpyAt {dst src : Bytes} {i : Nat} (h : i + src.length ≤ dst.length) :
    (memcpyAt dst i src).length = dst.length := by
  simp only [memcpyAt, List.length_append, List.length_take, List.length_drop]
  omega

/-- The number of bytes in the buffer, as the program computes it. -/
theorem Absorbed.index {ctx : Sha1Ctx} {message : Bytes} (h : Absorbed ctx message) :
    ((ctx.count >>> 3) &&& 63).toNat = message.length % 64 := by
  have hcount := h.count
  rw [UInt64.toNat_and, UInt64.toNat_shiftRight, hcount]
  show (8 * message.length % 2 ^ 64) >>> 3 &&& 2 ^ 6 - 1 = message.length % 64
  rw [Nat.and_two_pow_sub_one_eq_mod, Nat.shiftRight_eq_div_pow]
  omega

/-- `sha1_update` absorbs its data. -/
theorem Absorbed.update {ctx : Sha1Ctx} {message : Bytes} (h : Absorbed ctx message)
    (data : Bytes) : Absorbed (sha1Update ctx data) (message ++ data) := by
  have hidx := h.index
  have hmod : message.length % 64 < 64 := Nat.mod_lt _ (by decide)
  have hcount : (ctx.count + (UInt64.ofNat data.length <<< 3)).toNat =
      8 * (message ++ data).length % 2 ^ 64 := by
    rw [UInt64.toNat_add, UInt64.toNat_shiftLeft, UInt64.toNat_ofNat', h.count, List.length_append]
    show (8 * message.length % 2 ^ 64 + (data.length % 2 ^ 64) <<< 3 % 2 ^ 64) % 2 ^ 64 = _
    rw [Nat.shiftLeft_eq]
    omega
  have hleft := length_chainBlocks_snd 64 Sha1.compress Sha1.initial message
  have happend := chainBlocks_append 64 Sha1.compress Sha1.initial message data
  rw [← h.buffer] at hleft happend
  rw [← h.state] at happend
  unfold sha1Update
  simp only [hidx]
  split
  · next hpart =>
    have hfront : (data.take (64 - message.length % 64)).length = 64 - message.length % 64 := by
      rw [List.length_take]
      omega
    -- The buffer is filled up to a whole block.
    have hblock : memcpyAt ctx.buffer (message.length % 64)
        (data.take (64 - message.length % 64)) =
          ctx.buffer.take (message.length % 64) ++ data.take (64 - message.length % 64) := by
      have hend : ctx.buffer.drop (message.length % 64 + (64 - message.length % 64)) = [] := by
        rw [List.drop_eq_nil_iff, h.length]
        omega
      rw [memcpyAt, hfront, hend, List.append_nil]
    have hfull : (ctx.buffer.take (message.length % 64) ++
        data.take (64 - message.length % 64)).length = 64 := by
      rw [List.length_append, hleft, hfront]
      omega
    have hsplit : ctx.buffer.take (message.length % 64) ++ data =
        ctx.buffer.take (message.length % 64) ++ data.take (64 - message.length % 64) ++
          data.drop (64 - message.length % 64) := by
      rw [List.append_assoc, List.take_append_drop]
    rw [hblock]
    rw [hsplit] at happend
    generalize ctx.buffer.take (message.length % 64) ++
      data.take (64 - message.length % 64) = block at hfull happend
    rw [chainBlocks_block hfull, ← sha1Transform_value hfull] at happend
    have hdrop : (data.drop (64 - message.length % 64)).length ≤ data.length := by
      rw [List.length_drop]
      exact Nat.sub_le _ _
    obtain ⟨hstate, hrest⟩ := sha1Blocks_eq hdrop (sha1Transform ctx.state block)
    rw [← happend] at hstate hrest
    have hlen := length_chainBlocks_snd 64 Sha1.compress Sha1.initial
      (message ++ data)
    rw [← hrest] at hlen
    generalize sha1Blocks data.length (sha1Transform ctx.state block)
      (data.drop (64 - message.length % 64)) = out at hstate hrest hlen
    have hmod' : (message ++ data).length % 64 < 64 := Nat.mod_lt _ (by decide)
    refine ⟨hstate, hcount, ?_, ?_⟩
    · rw [length_memcpyAt, hfull]
      rw [hlen, hfull]
      omega
    · rw [← hrest, ← hlen]
      exact List.take_left
  · next hpart =>
    have hbuffer : memcpyAt ctx.buffer (message.length % 64) data =
        ctx.buffer.take (message.length % 64) ++ data ++
          ctx.buffer.drop (message.length % 64 + data.length) := rfl
    have hshort : (ctx.buffer.take (message.length % 64) ++ data).length < 64 := by
      rw [List.length_append, hleft]
      omega
    have hmodulo : (message ++ data).length % 64 = message.length % 64 + data.length := by
      rw [List.length_append]
      omega
    rw [chainBlocks_of_lt hshort] at happend
    refine ⟨?_, hcount, ?_, ?_⟩
    · rw [happend]
    · rw [length_memcpyAt, h.length]
      rw [h.length]
      omega
    · rw [happend, hmodulo, hbuffer]
      apply List.take_left'
      rw [List.length_append, hleft]

/-- So do the calls of `sha1_update` one after the other. -/
theorem Absorbed.updates {ctx : Sha1Ctx} {message : Bytes} (h : Absorbed ctx message)
    (pieces : List Bytes) :
    Absorbed (pieces.foldl sha1Update ctx) (message ++ pieces.flatten) := by
  induction pieces generalizing ctx message with
  | nil =>
    rw [List.flatten_nil, List.append_nil]
    exact h
  | cons data pieces ih =>
    rw [List.flatten_cons, ← List.append_assoc]
    exact ih (h.update data)

/-- `sha1_final` pads the message and hands out its digest. The length it pads with is
taken before the padding is counted, so that only the message itself must fit. -/
theorem Absorbed.final {ctx : Sha1Ctx} {message : Bytes} (h : Absorbed ctx message)
    (hlen : message.length < 2 ^ 61) : sha1Final ctx = sha1 message := by
  have hmod : message.length % 64 < 64 := Nat.mod_lt _ (by decide)
  have hpad : (0x80 :: List.replicate 63 0 : Bytes).take
      (if message.length % 64 < 56 then 56 - message.length % 64
        else 120 - message.length % 64) =
        0x80 :: List.replicate ((119 - message.length % 64) % 64) 0 := by
    have hn : (if message.length % 64 < 56 then 56 - message.length % 64
        else 120 - message.length % 64) = (119 - message.length % 64) % 64 + 1 := by
      split <;> omega
    rw [hn, List.take_succ_cons, List.take_replicate]
    congr 2
    omega
  have hbits : 8 * message.length % 2 ^ 64 = 8 * message.length := Nat.mod_eq_of_lt (by omega)
  have hall : message ++ 0x80 :: List.replicate ((119 - message.length % 64) % 64) 0 ++
      sha1LenBe ctx.count = message ++ Sha1.padding message.length := by
    rw [sha1LenBe_eq, h.count, hbits, List.append_assoc]
    rfl
  have hstate := ((h.update (0x80 :: List.replicate ((119 - message.length % 64) % 64) 0)).update
    (sha1LenBe ctx.count)).state
  rw [hall] at hstate
  unfold sha1Final sha1
  simp only [h.index, hpad, wordBe_eq]
  rw [← hstate]
  rfl

/-- **The digest does not depend on how the message is cut.** Any number of `sha1_update` calls,
with pieces of any length, empty ones too, give with `sha1_final` the SHA-1 of the pieces put
together. The bound is where the count of bits leaves its 64-bit variable; FIPS 180-4 defines
the digest of no longer message. -/
theorem sha1_streaming (pieces : List Bytes) (h : pieces.flatten.length < 2 ^ 61) :
    sha1Final (pieces.foldl sha1Update sha1Init) = sha1 pieces.flatten :=
  (absorbed_init.updates pieces).final h

/-- "abc" in three pieces, one of them empty. -/
theorem sha1_streaming_abc :
    sha1Final ([ascii "a", [], ascii "bc"].foldl sha1Update sha1Init) = sha1 (ascii "abc") ∧
      sha1 (ascii "abc") =
        [0xA9, 0x99, 0x3E, 0x36, 0x47, 0x06, 0x81, 0x6A, 0xBA, 0x3E, 0x25, 0x71, 0x78, 0x50,
          0xC2, 0x6C, 0x9C, 0xD0, 0xD8, 0x9D] := by
  have hlen : [ascii "a", [], ascii "bc"].flatten.length < 2 ^ 61 := by decide
  have hstream := sha1_streaming [ascii "a", [], ascii "bc"] hlen
  have habc : [ascii "a", [], ascii "bc"].flatten = ascii "abc" := by decide
  rw [habc] at hstream
  refine ⟨hstream, ?_⟩
  rw [← hstream]
  decide +kernel

/-! ## Base64 -/

theorem b64Char_eq (v : UInt32) : b64Char v = base64Char (v.toNat % 64) := by
  have hall : ∀ d : Fin 64, b64Tbl.getD d 0 = base64Char d := by decide
  have hmask : (v &&& 0x3F).toNat = v.toNat % 64 := by
    rw [UInt32.toNat_and]
    exact Nat.and_two_pow_sub_one_eq_mod v.toNat 6
  rw [b64Char, hmask]
  exact hall ⟨v.toNat % 64, Nat.mod_lt _ (by decide)⟩

theorem b64Group_eq (a b c : UInt8) (rem : Nat) : b64Group rem a b c =
    base64Digits 2 (fromNetwork [a, b, c]) ++
      [if 1 < rem then base64Char (fromNetwork [a, b, c] / 64 % 64) else 61,
        if 2 < rem then base64Char (fromNetwork [a, b, c] % 64) else 61] := by
  have htriple : (a.toUInt32 <<< 16) ||| (b.toUInt32 <<< 8) ||| c.toUInt32 =
      UInt32.ofNat (fromNetwork [a, b, c]) := by
    have hword := word_eq 0 a b c
    have hzero : (0 : UInt8).toUInt32 <<< 24 = 0 := rfl
    have hfour : fromNetwork [0, a, b, c] = fromNetwork [a, b, c] := rfl
    rwa [hzero, hfour, UInt32.zero_or] at hword
  have hlt : fromNetwork [a, b, c] < 2 ^ 32 :=
    Nat.lt_trans (fromNetwork_lt [a, b, c]) (show 256 ^ 3 < 2 ^ 32 by decide)
  simp only [b64Group, htriple, b64Char_eq, UInt32.toNat_shiftRight, UInt32.toNat_ofNat',
    Nat.mod_eq_of_lt hlt, Nat.shiftRight_eq_div_pow]
  rfl

/-- `base64_encode` is Base64. -/
theorem base64Loop_eq (input : Bytes) : base64Loop input = base64 input := by
  fun_induction base64Loop input with
  | case1 => rfl
  | case2 a => rw [b64Group_eq]; rfl
  | case3 a b => rw [b64Group_eq]; rfl
  | case4 a b c rest ih =>
    rw [b64Group_eq, ih, if_pos (by omega), if_pos (by omega)]
    rfl

end TelemetryTestbed.WebSocket

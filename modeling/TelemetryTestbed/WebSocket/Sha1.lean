import TelemetryTestbed.Lib.Bytes

/-!
# SHA-1 and Base64 of the handshake

The digest and the encoder `ws_server.c` carries with it. The context keeps the
bit count and the partial block between calls, as the C structure does, so a
message may arrive in any number of `sha1Update` calls.

The variables are 32 and 64 bits wide as in the source, so additions wrap. It is a second
definition of a function that exists in the library: this one has the buffer, the count and
the loop over the blocks, that one the standard.
-/

namespace TelemetryTestbed.WebSocket

open TelemetryTestbed.Lib

/-! ## SHA-1 -/

/-- The words of `sha1_ctx_t` that the hash is made of. -/
structure Sha1State where
  a : UInt32
  b : UInt32
  c : UInt32
  d : UInt32
  e : UInt32
  deriving DecidableEq

/-- `sha1_ctx_t`: the state after the blocks so far, `count` in bits, and the bytes of the block
that is not complete yet. -/
structure Sha1Ctx where
  state : Sha1State
  count : UInt64
  buffer : Bytes
  deriving DecidableEq

def rol32 (x n : UInt32) : UInt32 := (x <<< n) ||| (x >>> (32 - n))

/-- The `i`-th big-endian word of a block. -/
def blockWord (block : Bytes) (i : Nat) : UInt32 :=
  ((block.getD (i * 4) 0).toUInt32 <<< 24) |||
  ((block.getD (i * 4 + 1) 0).toUInt32 <<< 16) |||
  ((block.getD (i * 4 + 2) 0).toUInt32 <<< 8) |||
  (block.getD (i * 4 + 3) 0).toUInt32

/-- The second loop over `w`: `n` words are appended to those already there. -/
def sha1Expand : Nat → List UInt32 → List UInt32
  | 0, w => w
  | n + 1, w =>
    let i := w.length
    sha1Expand n (w ++ [rol32 (w.getD (i - 3) 0 ^^^ w.getD (i - 8) 0 ^^^
      w.getD (i - 14) 0 ^^^ w.getD (i - 16) 0) 1])

/-- The 80 words of the message schedule. -/
def sha1Schedule (block : Bytes) : List UInt32 :=
  sha1Expand 64 ((List.range 16).map (blockWord block))

/-- One round of the main loop. -/
def sha1Round (s : Sha1State) (i : Nat) (wi : UInt32) : Sha1State :=
  let f :=
    if i < 20 then (s.b &&& s.c) ||| (~~~s.b &&& s.d)
    else if i < 40 then s.b ^^^ s.c ^^^ s.d
    else if i < 60 then (s.b &&& s.c) ||| (s.b &&& s.d) ||| (s.c &&& s.d)
    else s.b ^^^ s.c ^^^ s.d
  let k : UInt32 :=
    if i < 20 then 0x5A827999
    else if i < 40 then 0x6ED9EBA1
    else if i < 60 then 0x8F1BBCDC
    else 0xCA62C1D6
  let temp := rol32 s.a 5 + f + s.e + k + wi
  { a := temp, b := s.a, c := rol32 s.b 30, d := s.c, e := s.d }

/-- The rounds from the `i`-th on, over the words that remain. -/
def sha1Rounds : Sha1State → Nat → List UInt32 → Sha1State
  | s, _, [] => s
  | s, i, wi :: w => sha1Rounds (sha1Round s i wi) (i + 1) w

def sha1Transform (s : Sha1State) (block : Bytes) : Sha1State :=
  let r := sha1Rounds s 0 (sha1Schedule block)
  { a := s.a + r.a, b := s.b + r.b, c := s.c + r.c, d := s.d + r.d, e := s.e + r.e }

def sha1Init : Sha1Ctx where
  state := ⟨0x67452301, 0xEFCDAB89, 0x98BADCFE, 0x10325476, 0xC3D2E1F0⟩
  count := 0
  buffer := List.replicate 64 0

/-- `while(i + 63 < len)`: whole blocks are taken straight from the data. The
first argument bounds the rounds; the length of the data is enough. -/
def sha1Blocks : Nat → Sha1State → Bytes → Sha1State × Bytes
  | 0, s, data => (s, data)
  | n + 1, s, data =>
    if 63 < data.length then sha1Blocks n (sha1Transform s (data.take 64)) (data.drop 64)
    else (s, data)

def sha1Update (ctx : Sha1Ctx) (data : Bytes) : Sha1Ctx :=
  let idx := ((ctx.count >>> 3) &&& 63).toNat
  let count := ctx.count + (UInt64.ofNat data.length <<< 3)
  let part := 64 - idx
  if part ≤ data.length then
    let buffer := memcpyAt ctx.buffer idx (data.take part)
    let (state, rest) :=
      sha1Blocks data.length (sha1Transform ctx.state buffer) (data.drop part)
    { state, count, buffer := memcpyAt buffer 0 rest }
  else
    { ctx with count, buffer := memcpyAt ctx.buffer idx data }

/-- `len_be`: the bit count, most significant byte first. -/
def sha1LenBe (bits : UInt64) : Bytes :=
  (List.range 8).map fun i => (bits >>> UInt64.ofNat (8 * (7 - i))).toUInt8

def wordBe (w : UInt32) : Bytes :=
  [(w >>> 24).toUInt8, (w >>> 16).toUInt8, (w >>> 8).toUInt8, w.toUInt8]

def sha1Final (ctx : Sha1Ctx) : Bytes :=
  let idx := ((ctx.count >>> 3) &&& 63).toNat
  let padLen := if idx < 56 then 56 - idx else 120 - idx
  let pad := (0x80 :: List.replicate 63 0).take padLen
  let s := (sha1Update (sha1Update ctx pad) (sha1LenBe ctx.count)).state
  wordBe s.a ++ wordBe s.b ++ wordBe s.c ++ wordBe s.d ++ wordBe s.e

/-! ## Base64 -/

def b64Tbl : Bytes :=
  ascii "ABCDEFGHIJKLMNOPQRSTUVWXYZabcdefghijklmnopqrstuvwxyz0123456789+/"

def b64Char (v : UInt32) : UInt8 := b64Tbl.getD (v &&& 0x3F).toNat 0

/-- The four characters of one round of the loop; `rem` is the number of input
bytes left at its start. -/
def b64Group (rem : Nat) (a b c : UInt8) : Bytes :=
  let triple := (a.toUInt32 <<< 16) ||| (b.toUInt32 <<< 8) ||| c.toUInt32
  [b64Char (triple >>> 18), b64Char (triple >>> 12),
    if 1 < rem then b64Char (triple >>> 6) else 61,
    if 2 < rem then b64Char triple else 61]

/-- The loop of `base64_encode`. -/
def base64Loop : Bytes → Bytes
  | [] => []
  | [a] => b64Group 1 a 0 0
  | [a, b] => b64Group 2 a b 0
  | a :: b :: c :: rest => b64Group (rest.length + 3) a b c ++ base64Loop rest

/-- `base64_encode`: the characters written before the NUL, or `none` for -1. -/
def base64Encode (input : Bytes) (outcap : Nat) : Option Bytes :=
  let olen := 4 * ((input.length + 2) / 3)
  if outcap < olen + 1 then none else some (base64Loop input)

end TelemetryTestbed.WebSocket

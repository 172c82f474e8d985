import TelemetryTestbed.Lib.BlockHash
import TelemetryTestbed.Lib.NetworkOrder

/-!
# SHA-1

The hash function of FIPS 180-4 for messages of whole bytes: the padding, the
message schedule as a recurrence, the 80 rounds and the chaining of the blocks.

It is the standard's own recurrence, with the whole message in memory. A program that keeps
the schedule in an array, or takes the message in parts, is compared with it; the length in
the padding is that of the message in bits modulo 2^64.
-/

namespace TelemetryTestbed.Lib

namespace Sha1

/-- The five words of a hash value, in the order in which they are put out. -/
structure HashValue where
  a : UInt32
  b : UInt32
  c : UInt32
  d : UInt32
  e : UInt32
  deriving DecidableEq

/-- ROTL, the rotation to the left. -/
def rotl (n : Nat) (x : UInt32) : UInt32 := ⟨x.toBitVec.rotateLeft n⟩

/-- The functions `Ch`, `Parity` and `Maj`, each for 20 rounds. -/
def f (t : Nat) (x y z : UInt32) : UInt32 :=
  if t < 20 then (x &&& y) ^^^ (~~~x &&& z)
  else if t < 40 then x ^^^ y ^^^ z
  else if t < 60 then (x &&& y) ^^^ (x &&& z) ^^^ (y &&& z)
  else x ^^^ y ^^^ z

def k (t : Nat) : UInt32 :=
  if t < 20 then 0x5A827999
  else if t < 40 then 0x6ED9EBA1
  else if t < 60 then 0x8F1BBCDC
  else 0xCA62C1D6

/-- The message schedule of a block. -/
def w (block : Bytes) (t : Nat) : UInt32 :=
  if t < 16 then UInt32.ofNat (fromNetwork ((block.drop (4 * t)).take 4))
  else rotl 1 (w block (t - 3) ^^^ w block (t - 8) ^^^ w block (t - 14) ^^^ w block (t - 16))
termination_by t

def round (h : HashValue) (t : Nat) (word : UInt32) : HashValue :=
  { a := rotl 5 h.a + f t h.b h.c h.d + h.e + k t + word
    b := h.a
    c := rotl 30 h.b
    d := h.c
    e := h.d }

def compress (h : HashValue) (block : Bytes) : HashValue :=
  let r := (List.range 80).foldl (fun h t => round h t (w block t)) h
  { a := h.a + r.a, b := h.b + r.b, c := h.c + r.c, d := h.d + r.d, e := h.e + r.e }

def initial : HashValue := ⟨0x67452301, 0xEFCDAB89, 0x98BADCFE, 0x10325476, 0xC3D2E1F0⟩

/-- The padding behind a message of `len` bytes: a one bit, zero bits, and the length in
bits in 8 bytes, so that the whole consists of blocks of 64 bytes. -/
def padding (len : Nat) : Bytes :=
  0x80 :: (List.replicate ((119 - len % 64) % 64) 0 ++ networkOrder 8 (8 * len))

def HashValue.bytes (h : HashValue) : Bytes :=
  networkOrder 4 h.a.toNat ++ networkOrder 4 h.b.toNat ++ networkOrder 4 h.c.toNat ++
    networkOrder 4 h.d.toNat ++ networkOrder 4 h.e.toNat

end Sha1

/-- The message digest. -/
def sha1 (message : Bytes) : Bytes :=
  (chainBlocks 64 Sha1.compress Sha1.initial
    (message ++ Sha1.padding message.length)).1.bytes

end TelemetryTestbed.Lib

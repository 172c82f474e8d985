import Mathlib.Algebra.Group.Nat.Defs
import TelemetryTestbed.WebSocket.Sha1

/-!
# The Base64 encoder in memory

`base64_encode` with its buffers and its integer types. A read or a store outside of a
buffer is the end of the run, and so are more rounds than the input has bytes.

The two buffers and their lengths are those of the caller, and the index into the output is a
machine integer of the size the source gives it. That no run ends outside of a buffer is a law
and not a property of the model.
-/

namespace TelemetryTestbed.WebSocket

open TelemetryTestbed.Lib

/-- An object in memory. No object has 2^63 bytes, so a length and an index into one fit
`size_t` and the differences of pointers. -/
structure CBuffer where
  bytes : Bytes
  length_lt : bytes.length < 2 ^ 63

/-- `out[j] = c;` -/
def storeAt (out : Bytes) (j : UInt64) (c : UInt8) : Option Bytes :=
  if j.toNat < out.length then some (out.set j.toNat c) else none

/-- The loop of `base64_encode` from the indices `i` and `j` on: the buffer and `j` at its
end. The first argument bounds the rounds. -/
def base64EncodeLoop (input : Bytes) (inlen : UInt64) :
    Nat → Bytes → UInt64 → UInt64 → Option (Bytes × UInt64)
  | 0, _, _, _ => none
  | n + 1, out, i, j =>
    if i < inlen then do
      let rem := inlen - i
      let octetA ← input[i.toNat]?
      let i := i + 1
      let octetB ← if rem > 1 then input[i.toNat]? else some 0
      let i := if rem > 1 then i + 1 else i
      let octetC ← if rem > 2 then input[i.toNat]? else some 0
      let i := if rem > 2 then i + 1 else i
      let triple := (octetA.toUInt32 <<< 16) ||| (octetB.toUInt32 <<< 8) ||| octetC.toUInt32
      let out ← storeAt out j (b64Char (triple >>> 18))
      let j := j + 1
      let out ← storeAt out j (b64Char (triple >>> 12))
      let j := j + 1
      let out ← storeAt out j (if rem > 1 then b64Char (triple >>> 6) else 61)
      let j := j + 1
      let out ← storeAt out j (if rem > 2 then b64Char triple else 61)
      let j := j + 1
      base64EncodeLoop input inlen n out i j
    else some (out, j)

/-- `base64_encode(in, inlen, out, outcap)` for two buffers and their sizes: the output
buffer as it is left, and the value returned. -/
def base64EncodeAt (input out : CBuffer) : Option (Bytes × Int32) :=
  let inlen := UInt64.ofNat input.bytes.length
  let outcap := UInt64.ofNat out.bytes.length
  let olen := 4 * ((inlen + 2) / 3)
  if outcap < olen + 1 then some (out.bytes, -1)
  else do
    let (out, j) ← base64EncodeLoop input.bytes inlen (input.bytes.length + 1) out.bytes 0 0
    let out ← storeAt out j 0
    return (out, .ofNat j.toNat)

end TelemetryTestbed.WebSocket

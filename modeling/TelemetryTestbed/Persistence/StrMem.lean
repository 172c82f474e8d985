import TelemetryTestbed.Lib.Block
import TelemetryTestbed.Lib.Run
import TelemetryTestbed.Persistence.StrBuf

/-!
# The string buffer in memory

`strbuf_t` with the block that `buf` points to, and the operations with their integer
types. A call has no result where it leaves a block, reads a byte that nothing has been
stored to, or does not come to an end.

`sb_appendf` formats into a buffer of 512 bytes first and, where that is too short, into a
block of its own, so a call may ask the allocator twice. The doubling of the capacity is a
loop with a bound on its rounds, and leaving it without a result would show.
-/

namespace TelemetryTestbed.Persistence

open TelemetryTestbed.Lib

/-- `strbuf_t` byte by byte, with the lengths as the machine words they are. -/
structure StrMem where
  buf : Option Block
  len : UInt64
  cap : UInt64

/-- `strbuf_t sb = {0};`, and what `sb_free` leaves. -/
def StrMem.init : StrMem := ⟨none, 0, 0⟩

/-- What a call returns and leaves behind. -/
structure Called where
  rc : Int32
  sb : StrMem
  rest : Answers

/-- `while(ncap < need) ncap *= 2;` in at most as many rounds as the first argument says. -/
def doublingLoop : Nat → UInt64 → UInt64 → Option UInt64
  | 0, ncap, need => if ncap < need then none else some ncap
  | n + 1, ncap, need => if ncap < need then doublingLoop n (ncap * 2) need else some ncap

/-- `sb_reserve`. A `size_t` that has been doubled 64 times is 0 for good. -/
def sbReserveAt (sb : StrMem) (extra : UInt64) (as : Answers) : Option Called :=
  if sb.len + extra + 1 ≤ sb.cap then some ⟨0, sb, as⟩
  else do
    let ncap := if sb.cap ≠ 0 then sb.cap else 1024
    let ncap ← doublingLoop 64 ncap (sb.len + extra + 1)
    if as.next.1 then
      return ⟨0, { sb with buf := some (Block.realloc sb.buf ncap.toNat), cap := ncap }, as.next.2⟩
    else return ⟨-1, sb, as.next.2⟩

/-- Where the room is reserved, `n` bytes of `src` and a NUL go behind the text. -/
def sbCopyAt (sb : StrMem) (src : Block) (n : UInt64) (as : Answers) : Option Called := do
  let r ← sbReserveAt sb n as
  if r.rc ≠ 0 then return { r with rc := -1 }
  else
    let buf ← Block.memcpy (← r.sb.buf) r.sb.len.toNat src n.toNat
    let len := r.sb.len + n
    let buf ← Block.store buf len.toNat 0
    return ⟨0, { r.sb with buf := some buf, len }, r.rest⟩

/-- `sb_append` for a pointer to the start of the block `s`. -/
def sbAppendAt (sb : StrMem) (s : Block) (as : Answers) : Option Called := do
  let n := UInt64.ofNat (← s.string).length
  sbCopyAt sb s n as

/-- `sb_appendf` for a format and arguments of this text; there is none where a conversion
fails. -/
def sbAppendfAt (sb : StrMem) (formatted : Option CText) (as : Answers) : Option Called := do
  let (tmp, n) ← Block.vsnprintf (Block.malloc 512) 512 formatted
  if n < 0 then return ⟨-1, sb, as⟩
  else
    let n := UInt64.ofInt n.toInt
    if n < 512 then sbCopyAt sb tmp n as
    else if as.next.1 then
      let (big, _) ← Block.vsnprintf (Block.malloc (n + 1).toNat) (n + 1).toNat formatted
      sbAppendAt sb big as.next.2
    else return ⟨-1, sb, as.next.2⟩

/-! ## Calls in a row -/

/-- A call of `sb_append` or of `sb_appendf`, with what `vsnprintf` makes of its arguments. -/
inductive SbCall
  | append (s : CText)
  | appendf (formatted : Option CText)

/-- The text of a call. -/
def SbCall.text : SbCall → Bytes
  | .append s => s.bytes
  | .appendf none => []
  | .appendf (some s) => s.bytes

def SbCall.run (sb : StrMem) (as : Answers) : SbCall → Option Called
  | .append s => sbAppendAt sb s.block as
  | .appendf formatted => sbAppendfAt sb formatted as

/-- A buffer, the answers of the allocator to come, and the calls with what they returned. -/
structure SbRun where
  sb : StrMem
  answers : Answers
  returned : List (SbCall × Int32)

def SbRun.init (answers : Answers) : SbRun := ⟨.init, answers, []⟩

def SbRun.step (s : SbRun) (call : SbCall) : Option SbRun :=
  (call.run s.sb s.answers).map fun r => ⟨r.sb, r.rest, s.returned ++ [(call, r.rc)]⟩

end TelemetryTestbed.Persistence

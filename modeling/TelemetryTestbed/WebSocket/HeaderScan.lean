import TelemetryTestbed.WebSocket.Handshake

/-!
# The header lookup in memory

`find_header_value` as it works on the buffer: pointers are offsets into the memory, the
value is a pointer into the line, and the CRLF of that line is overwritten with a NUL.

Other parts of the model use `findHeaderValue`, which answers the value as a text; this one
shows what happens to the memory, and that the pointer is good. A pointer that would leave the
memory ends the run.
-/

namespace TelemetryTestbed.WebSocket

open TelemetryTestbed.Lib

/-- The string a pointer points to. -/
def stringAt (mem : Bytes) (p : Nat) : Bytes := cstr (mem.drop p)

/-- `strstr(p, needle)`; `none` is NULL. -/
def strstrAt (mem : Bytes) (p : Nat) (needle : Bytes) : Option Nat :=
  (strstr (stringAt mem p) needle).map fun found =>
    p + ((stringAt mem p).length - found.length)

/-- `while (*v == ' ' || *v == '\t') v++;` -/
def skipBlanks (mem : Bytes) (v : Nat) : Nat := v + ((mem.drop v).takeWhile isBlank).length

/-- The loop of `find_header_value`. The first argument bounds its rounds, and the outer
`none` says that they were not enough; the inner one is NULL. A value comes with the memory
as it is left. -/
def headerLoop (name : Bytes) : Nat → Bytes → Nat → Option (Option (Nat × Bytes))
  | 0, _, _ => none
  | n + 1, mem, p =>
    if mem[p]? = some 0 then some none
    else match strstrAt mem p crlf with
      | none => some none
      | some lineEnd =>
        if lineEnd = p then some none
        else if name.length + 1 < lineEnd - p ∧ icaseStartsWith (stringAt mem p) name
            ∧ mem[p + name.length]? = some 58 then
          let v := skipBlanks mem (p + name.length + 1)
          some (some (v, mem.set lineEnd 0))
        else headerLoop name n mem (lineEnd + 2)

/-- `find_header_value(http, name)`, where `http` points to the start of the memory. -/
def findHeaderValueAt (mem name : Bytes) : Option (Option (Nat × Bytes)) :=
  headerLoop name mem.length mem 0

end TelemetryTestbed.WebSocket

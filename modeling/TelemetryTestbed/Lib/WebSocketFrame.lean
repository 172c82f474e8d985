import Mathlib.Data.List.OfFn
import TelemetryTestbed.Lib.NetworkOrder

/-!
# WebSocket frames

The base framing of RFC 6455, from the sender's side: an unfragmented frame with
the shortest of the three length forms, masked or not.

It is the reference that a decoder is compared with: the payload, the opcode and the mask are
inputs, and the first byte always says that the frame is final. Continuation frames and the
reserved bits do not occur. Masking twice with one key gives the payload back.
-/

namespace TelemetryTestbed.Lib

/-! ## Masks -/

abbrev MaskingKey := Fin 4 → UInt8

/-- Octet `i` of the payload is combined with octet `i` modulo 4 of the key. -/
def applyMask (key : MaskingKey) (payload : Bytes) : Bytes :=
  payload.mapIdx fun i b => b ^^^ key (Fin.ofNat 4 i)

@[simp] theorem length_applyMask (key : MaskingKey) (payload : Bytes) :
    (applyMask key payload).length = payload.length := List.length_mapIdx

theorem applyMask_applyMask (key : MaskingKey) (payload : Bytes) :
    applyMask key (applyMask key payload) = payload := by
  apply List.ext_getElem
  · rw [length_applyMask, length_applyMask]
  · intro i _ _
    simp only [applyMask, List.getElem_mapIdx, UInt8.xor_assoc, UInt8.xor_self, UInt8.xor_zero]

/-! ## Frames -/

/-- The 7 bits of the length, and the extended length behind them. -/
def lengthField (n : Nat) : Nat × Bytes :=
  if n ≤ 125 then (n, [])
  else if n ≤ 65535 then (126, networkOrder 2 n)
  else (127, networkOrder 8 n)

/-- The second byte of a header. -/
def lengthByte (masked : Bool) (field : Nat) : UInt8 :=
  UInt8.ofNat ((if masked then 128 else 0) + field)

/-- The key as it stands in a header. -/
def maskBytes : Option MaskingKey → Bytes
  | none => []
  | some key => List.ofFn key

def maskPayload : Option MaskingKey → Bytes → Bytes
  | none, payload => payload
  | some key, payload => applyMask key payload

/-- An unfragmented frame. -/
def encodeFrame (opcode : Fin 16) (key : Option MaskingKey) (payload : Bytes) : Bytes :=
  [UInt8.ofNat (128 + opcode), lengthByte key.isSome (lengthField payload.length).1] ++
    ((lengthField payload.length).2 ++ (maskBytes key ++ maskPayload key payload))

theorem lengthField_lt (n : Nat) : (lengthField n).1 < 128 := by
  unfold lengthField
  split
  · next h => exact Nat.lt_of_le_of_lt h (by decide)
  · split
    · exact (by decide : 126 < 128)
    · exact (by decide : 127 < 128)

/-- What a receiver takes out of the two header bytes. -/
theorem lengthByte_masked (masked : Bool) {field : Nat} (h : field < 128) :
    lengthByte masked field >>> 7 &&& 1 = if masked then 1 else 0 := by
  have hall : ∀ (m : Bool) (f : Fin 128),
      lengthByte m f >>> 7 &&& 1 = if m then 1 else 0 := by decide
  exact hall masked ⟨field, h⟩

theorem lengthByte_field (masked : Bool) {field : Nat} (h : field < 128) :
    lengthByte masked field &&& 0x7F = UInt8.ofNat field := by
  have hall : ∀ (m : Bool) (f : Fin 128), lengthByte m f &&& 0x7F = UInt8.ofNat f := by decide
  exact hall masked ⟨field, h⟩

theorem opcodeByte (opcode : Fin 16) :
    UInt8.ofNat (128 + opcode) &&& 0x0F = UInt8.ofNat opcode := by
  revert opcode
  decide

end TelemetryTestbed.Lib

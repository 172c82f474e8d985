import Mathlib.Algebra.Group.Nat.Defs
import TelemetryTestbed.Lib.Bytes

/-!
# Blocks of memory

Local arrays, and what `malloc` and `realloc` answer. A byte that nothing has been stored to
is `none`, and can be copied but not looked at. An access outside of a block has no result.

The copying rules split a block into what is filled already and the rest, which is how a
program appends to a buffer (`memcpy_append`, `store_append`). `vsnprintf` is given the text
that a correct conversion makes, and truncates it to the block as C does; it answers the
length the text would have, or a negative number where the conversion fails or that length is
no `int`.
-/

namespace TelemetryTestbed.Lib

abbrev Block := List (Option UInt8)

/-- A text that fits a C string: it has no NUL among its bytes. -/
structure CText where
  bytes : Bytes
  noNul : (0 : UInt8) ∉ bytes

namespace Block

/-- These bytes have been stored. -/
def ofBytes (bytes : Bytes) : Block := bytes.map some

/-- A block that nothing has been stored to. -/
def malloc (size : Nat) : Block := List.replicate size none

def realloc (old : Option Block) (size : Nat) : Block :=
  match old with
  | none => malloc size
  | some b => b.take size ++ malloc (size - b.length)

/-- `memcpy(&dst[i], src, n)` -/
def memcpy (dst : Block) (i : Nat) (src : Block) (n : Nat) : Option Block :=
  if i + n ≤ dst.length ∧ n ≤ src.length then
    some (dst.take i ++ src.take n ++ dst.drop (i + n))
  else none

/-- `b[i] = c` -/
def store (b : Block) (i : Nat) (c : UInt8) : Option Block :=
  if i < b.length then some (b.set i (some c)) else none

/-- The string at the start of the block. -/
def string : Block → Option Bytes
  | [] => none
  | none :: _ => none
  | some c :: rest => if c = 0 then some [] else (string rest).map (c :: ·)

/-- `vsnprintf(dst, size, ..)` for a format and arguments of this text: the block, and the
value returned. There is no text where a conversion fails; then, and where the length is no
`int`, the value is negative. -/
def vsnprintf (dst : Block) (size : Nat) (formatted : Option CText) : Option (Block × Int32) :=
  match formatted with
  | none => some (malloc dst.length, -1)
  | some text =>
    if 2 ^ 31 ≤ text.bytes.length then some (malloc dst.length, -1)
    else if size = 0 then some (dst, .ofNat text.bytes.length)
    else
      let out := text.bytes.take (size - 1) ++ [0]
      (memcpy dst 0 (ofBytes out) out.length).map fun dst => (dst, .ofNat text.bytes.length)

end Block

/-- The block of a string literal. -/
def CText.block (s : CText) : Block := Block.ofBytes s.bytes ++ [some 0]

namespace Block

variable {front rest src : Block} {text : Bytes} {n size : Nat}

@[simp] theorem length_ofBytes (text : Bytes) : (ofBytes text).length = text.length :=
  List.length_map _

@[simp] theorem length_malloc (size : Nat) : (malloc size).length = size :=
  List.length_replicate

theorem ofBytes_append (s t : Bytes) : ofBytes (s ++ t) = ofBytes s ++ ofBytes t :=
  List.map_append

/-- Copying behind a part of the block. -/
theorem memcpy_append (hn : n ≤ rest.length) (hsrc : n ≤ src.length) :
    memcpy (front ++ rest) front.length src n =
      some (front ++ (src.take n ++ rest.drop n)) := by
  have hfits : front.length + n ≤ (front ++ rest).length ∧ n ≤ src.length := by
    rw [List.length_append]
    omega
  rw [memcpy, if_pos hfits, List.take_left, List.drop_append, List.append_assoc,
    List.drop_eq_nil_of_le (Nat.le_add_right _ _), List.nil_append, Nat.add_sub_cancel_left]

/-- A store behind a part of the block. -/
theorem store_append {x : Option UInt8} {c : UInt8} :
    store (front ++ x :: rest) front.length c = some (front ++ some c :: rest) := by
  have hlt : front.length < (front ++ x :: rest).length := by
    rw [List.length_append, List.length_cons]
    omega
  rw [store, if_pos hlt, List.set_append_right _ _ (Nat.le_refl _), Nat.sub_self]
  rfl

/-- Copying behind a part of the block, and one more store behind that. -/
theorem memcpy_store (c : UInt8) (hn : n < rest.length) (hsrc : n ≤ src.length) :
    ∃ b, memcpy (front ++ rest) front.length src n = some b ∧
      store b (front.length + n) c =
        some (front ++ src.take n ++ some c :: rest.drop (n + 1)) := by
  refine ⟨_, memcpy_append (Nat.le_of_lt hn) hsrc, ?_⟩
  have hlength : front.length + n = (front ++ src.take n).length := by
    rw [List.length_append, List.length_take, Nat.min_eq_left hsrc]
  rw [List.drop_eq_getElem_cons hn, ← List.append_assoc, hlength]
  exact store_append

theorem string_ofBytes (h : (0 : UInt8) ∉ text) (rest : Block) :
    (ofBytes text ++ some 0 :: rest).string = some text := by
  induction text with
  | nil => rfl
  | cons c text ih =>
    rw [List.mem_cons, not_or] at h
    show (if c = 0 then _ else _) = _
    rw [if_neg (Ne.symm h.1)]
    exact congrArg (Option.map (c :: ·)) (ih h.2)

/-- Growing keeps what stands at the start. -/
theorem realloc_append (h : (front ++ rest).length ≤ size) :
    ∃ rest', realloc (some (front ++ rest)) size = front ++ rest' ∧
      (front ++ rest').length = size := by
  refine ⟨rest ++ malloc (size - (front ++ rest).length), ?_, ?_⟩
  · show (front ++ rest).take size ++ _ = _
    rw [List.take_of_length_le h, List.append_assoc]
  · rw [← List.append_assoc, List.length_append, length_malloc]
    omega

/-- A text that fits is printed with its NUL. -/
theorem vsnprintf_of_lt {s : CText} (dst : Block) (hint : s.bytes.length < 2 ^ 31)
    (hsize : s.bytes.length < size) (hdst : size ≤ dst.length) :
    vsnprintf dst size (some s) =
      some (ofBytes s.bytes ++ some 0 :: dst.drop (s.bytes.length + 1),
        .ofNat s.bytes.length) := by
  have hout : s.bytes.take (size - 1) = s.bytes := List.take_of_length_le (by omega)
  have hlen : (s.bytes ++ [0]).length = s.bytes.length + 1 := List.length_append
  have hblock : (ofBytes (s.bytes ++ [0])).length = s.bytes.length + 1 := by
    rw [length_ofBytes, hlen]
  have hcopy := @memcpy_append [] dst (ofBytes (s.bytes ++ [0])) (s.bytes.length + 1)
    (by omega) (Nat.le_of_eq hblock.symm)
  rw [List.take_of_length_le (Nat.le_of_eq hblock)] at hcopy
  simp only [vsnprintf, if_neg (Nat.not_le.mpr hint), if_neg (Nat.ne_zero_of_lt hsize), hout, hlen]
  rw [show memcpy dst 0 _ _ = _ from hcopy, ofBytes_append]
  simp [ofBytes]

/-- Of a text that does not fit the length is returned all the same. -/
theorem vsnprintf_of_le {s : CText} (dst : Block) (hint : s.bytes.length < 2 ^ 31)
    (hsize : size ≤ s.bytes.length) (hdst : size ≤ dst.length) :
    ∃ dst', vsnprintf dst size (some s) = some (dst', .ofNat s.bytes.length) := by
  simp only [vsnprintf, if_neg (Nat.not_le.mpr hint)]
  split
  · exact ⟨dst, rfl⟩
  · next hpos =>
    have hlen : (s.bytes.take (size - 1) ++ [0]).length = size := by
      rw [List.length_append, List.length_take, List.length_singleton]
      omega
    rw [memcpy, if_pos (by rw [length_ofBytes, hlen]; omega)]
    exact ⟨_, rfl⟩

/-- A failure of `vsnprintf`. -/
theorem vsnprintf_fails {formatted : Option CText} {dst : Block}
    (h : ∀ s ∈ formatted, 2 ^ 31 ≤ s.bytes.length) :
    vsnprintf dst size formatted = some (malloc dst.length, -1) := by
  cases formatted with
  | none => rfl
  | some s => exact if_pos (h s rfl)

end Block

end TelemetryTestbed.Lib

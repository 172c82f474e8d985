import TelemetryTestbed.Lib.Bytes

/-!
# UTF-8

A byte string is UTF-8 if it is the encoding of some characters. No byte below
`0x80` stands inside the encoding of another character, so such a byte cuts a text
into two parts that are valid each by itself (`isUtf8_append_cons`). The length of a text
in characters is a count of bytes too (`charCount_flatMap`), so a limit that is set in
characters can be checked on the bytes.

A limit that cuts a text at a byte may cut a character in two, and `isUtf8_take_iff` says
exactly when it does. Characters are the scalar values of Unicode; what a user sees as one
character, and normal forms, are not the subject.
-/

namespace TelemetryTestbed.Lib

/-- The bytes encode a list of characters. -/
def IsUtf8 (b : Bytes) : Prop := ∃ cs : List Char, cs.flatMap String.utf8EncodeChar = b

theorem isUtf8_iff_isValidUTF8 (b : Bytes) : IsUtf8 b ↔ b.toByteArray.IsValidUTF8 := by
  constructor
  · rintro ⟨cs, rfl⟩
    exact ⟨cs, rfl⟩
  · rintro ⟨cs, hcs⟩
    refine ⟨cs, ?_⟩
    have hdata := congrArg (fun a => a.data.toList) hcs
    simpa [List.utf8Encode] using hdata.symm

instance : DecidablePred IsUtf8 := fun b => decidable_of_iff _ (isUtf8_iff_isValidUTF8 b).symm

/-- A byte below `0x80` is the whole encoding it stands in. -/
theorem utf8EncodeChar_eq_singleton_of_mem {c : Char} {b : UInt8}
    (hb : b ∈ String.utf8EncodeChar c) (hlt : b.toNat < 128) :
    String.utf8EncodeChar c = [b] := by
  have hhigh : ∀ {n : Nat}, b = UInt8.ofNat n → 128 ≤ n → n < 256 → False := by
    rintro n rfl hle hlt'
    rw [UInt8.toNat_ofNat', Nat.mod_eq_of_lt hlt'] at hlt
    omega
  revert hb
  unfold String.utf8EncodeChar
  dsimp only
  split
  next => exact fun hb => by rw [List.mem_singleton.mp hb]
  next =>
    intro hb
    exfalso
    split at hb
    next =>
      simp only [List.mem_cons, List.not_mem_nil, or_false] at hb
      rcases hb with h | h <;> exact hhigh h (by omega) (by omega)
    next =>
      split at hb
      next =>
        simp only [List.mem_cons, List.not_mem_nil, or_false] at hb
        rcases hb with h | h | h <;> exact hhigh h (by omega) (by omega)
      next =>
        simp only [List.mem_cons, List.not_mem_nil, or_false] at hb
        rcases hb with h | h | h | h <;> exact hhigh h (by omega) (by omega)

theorem isUtf8_nil : IsUtf8 [] := ⟨[], rfl⟩

theorem utf8EncodeChar_ofNat {b : UInt8} (h : b.toNat < 128) :
    String.utf8EncodeChar (Char.ofNat b.toNat) = [b] := by
  have hval : (Char.ofNat b.toNat).val.toNat = b.toNat := by
    have hvalid : b.toNat.isValidChar := Or.inl (by omega)
    rw [Char.ofNat, dif_pos hvalid]
    exact UInt32.toNat_ofNatLT
  unfold String.utf8EncodeChar
  rw [hval]
  dsimp only
  rw [if_pos (by omega), UInt8.ofNat_toNat]

/-- A byte below `0x80` cuts a text in two. -/
theorem isUtf8_append_cons {x r : Bytes} {b : UInt8} (h : b.toNat < 128) :
    IsUtf8 (x ++ b :: r) ↔ IsUtf8 x ∧ IsUtf8 r := by
  constructor
  · rintro ⟨cs, hcs⟩
    induction cs generalizing x with
    | nil => exact absurd hcs.symm (List.append_ne_nil_of_right_ne_nil x (List.cons_ne_nil b r))
    | cons c cs ih =>
      have hcons : ∀ {y : Bytes}, IsUtf8 y → IsUtf8 (String.utf8EncodeChar c ++ y) :=
        fun ⟨ds, hds⟩ => ⟨c :: ds, by rw [List.flatMap_cons, hds]⟩
      rw [List.flatMap_cons] at hcs
      -- the byte stands behind the first character, or inside it
      rcases List.append_eq_append_iff.mp hcs with ⟨x', rfl, hrest⟩ | ⟨y, hc, hrest⟩
      · obtain ⟨hx, hr⟩ := ih hrest
        exact ⟨hcons hx, hr⟩
      · cases y with
        | nil =>
          obtain ⟨-, hr⟩ := ih (x := []) hrest.symm
          rw [List.append_nil] at hc
          rw [← hc, ← List.append_nil (String.utf8EncodeChar c)]
          exact ⟨hcons isUtf8_nil, hr⟩
        | cons b' y =>
          obtain ⟨rfl, htail⟩ := List.cons.inj hrest
          have hsingle := utf8EncodeChar_eq_singleton_of_mem
            (hc ▸ List.mem_append_right x List.mem_cons_self) h
          rw [hsingle] at hc
          obtain ⟨rfl, hy⟩ | ⟨x', -, hnil⟩ := List.append_eq_cons_iff.mp hc.symm
          · obtain ⟨-, rfl⟩ := List.cons.inj hy
            exact ⟨isUtf8_nil, cs, htail.symm⟩
          · exact absurd hnil.symm (List.append_ne_nil_of_right_ne_nil x' (List.cons_ne_nil b y))
  · rintro ⟨⟨cs, rfl⟩, ⟨ds, rfl⟩⟩
    refine ⟨cs ++ Char.ofNat b.toNat :: ds, ?_⟩
    rw [List.flatMap_append, List.flatMap_cons, utf8EncodeChar_ofNat h, List.singleton_append]

theorem isUtf8_cons {r : Bytes} {b : UInt8} (h : b.toNat < 128) :
    IsUtf8 (b :: r) ↔ IsUtf8 r :=
  (isUtf8_append_cons (x := []) h).trans (and_iff_right isUtf8_nil)

/-- ASCII in front of a text changes nothing. -/
theorem isUtf8_ascii_append {t r : Bytes} (h : ∀ b ∈ t, b.toNat < 128) :
    IsUtf8 (t ++ r) ↔ IsUtf8 r := by
  induction t with
  | nil => exact Iff.rfl
  | cons b t ih =>
    rw [List.cons_append, isUtf8_cons (h b List.mem_cons_self),
      ih fun x hx => h x (List.mem_cons_of_mem _ hx)]

theorem isUtf8_append {x y : Bytes} (hx : IsUtf8 x) (hy : IsUtf8 y) : IsUtf8 (x ++ y) := by
  obtain ⟨cs, rfl⟩ := hx
  obtain ⟨ds, rfl⟩ := hy
  exact ⟨cs ++ ds, List.flatMap_append⟩

theorem isUtf8_flatMap {ι : Type} {l : List ι} {f : ι → Bytes} (h : ∀ i ∈ l, IsUtf8 (f i)) :
    IsUtf8 (l.flatMap f) := by
  induction l with
  | nil => exact isUtf8_nil
  | cons i l ih =>
    rw [List.flatMap_cons]
    exact isUtf8_append (h i List.mem_cons_self) (ih fun j hj => h j (List.mem_cons_of_mem _ hj))

def IsAscii (w : Bytes) : Prop := ∀ b ∈ w, b.toNat < 128

instance : DecidablePred IsAscii := fun w => List.decidableBAll _ w

theorem isUtf8_of_ascii {w : Bytes} (h : IsAscii w) : IsUtf8 w := by
  have := (isUtf8_ascii_append (r := []) h).mpr isUtf8_nil
  rwa [List.append_nil] at this

/-- A prefix of a text is a text exactly if a character begins behind it, or nothing is
there. -/
theorem isUtf8_take_iff {s : Bytes} (h : IsUtf8 s) (n : Nat) :
    IsUtf8 (s.take n) ↔ ∀ b, s[n]? = some b → b.IsUTF8FirstByte := by
  by_cases hn : n < s.length
  · let str : String := ⟨s.toByteArray, (isUtf8_iff_isValidUTF8 s).mp h⟩
    have hsize : str.utf8ByteSize = s.length := List.size_toByteArray
    have hextract : str.toByteArray.extract 0 n = (s.take n).toByteArray := by
      apply ByteArray.ext
      simp [str, ByteArray.data_extract]
    have hget : ∀ hlt, str.getUTF8Byte ⟨n⟩ hlt = s[n] := by
      intro hlt
      simp [str, String.getUTF8Byte, ByteArray.getElem_eq_getElem_data]
    have hpos := @String.Pos.Raw.isValid_iff_isUTF8FirstByte str ⟨n⟩
    rw [String.Pos.Raw.isValid_iff_isValidUTF8_extract_zero] at hpos
    simp only [String.Pos.Raw.le_iff, String.Pos.Raw.lt_iff, String.Pos.Raw.ext_iff,
      String.byteIdx_rawEndPos, hsize, hget, exists_prop] at hpos
    rw [isUtf8_iff_isValidUTF8, ← hextract, List.getElem?_eq_getElem hn]
    have hne : n ≠ s.length := Nat.ne_of_lt hn
    simpa only [Nat.le_of_lt hn, hn, hne, true_and, false_or, Option.some.injEq,
      forall_eq'] using hpos
  · have hnone : s[n]? = none := List.getElem?_eq_none (Nat.le_of_not_lt hn)
    rw [List.take_of_length_le (Nat.le_of_not_lt hn), hnone]
    exact ⟨fun _ _ hb => (Option.some_ne_none _ hb.symm).elim, fun _ => h⟩

/-! ## Characters -/

/-- The characters of a text: its bytes without those that continue a character, which are
`10xxxxxx`. -/
def charCount (b : Bytes) : Nat := b.countP fun x => x.toNat / 64 ≠ 2

/-- The bytes behind the first one of a character are not counted. -/
theorem charCount_cons {n : Nat} {tail : Bytes} (hn : n < 256) :
    charCount (UInt8.ofNat n :: tail) = charCount tail + if n / 64 = 2 then 0 else 1 := by
  have hval : (UInt8.ofNat n).toNat = n := by rw [UInt8.toNat_ofNat', Nat.mod_eq_of_lt hn]
  rw [charCount, List.countP_cons, hval, charCount]
  by_cases h : n / 64 = 2
  · simp [h]
  · simp [h]

theorem charCount_utf8EncodeChar (c : Char) : charCount (String.utf8EncodeChar c) = 1 := by
  have hvalid : c.val.toNat < 1114112 := by
    have := c.valid
    rcases this with h | h <;> omega
  have hnil : charCount [] = 0 := rfl
  have hnext : ∀ n tail, charCount (UInt8.ofNat (n % 64 + 128) :: tail) = charCount tail := by
    intro n tail
    rw [charCount_cons (by omega), if_pos (by omega), Nat.add_zero]
  unfold String.utf8EncodeChar
  dsimp only
  split
  · rw [charCount_cons (by omega), if_neg (by omega), hnil]
  · split
    · rw [charCount_cons (by omega), if_neg (by omega), hnext, hnil]
    · split
      · rw [charCount_cons (by omega), if_neg (by omega), hnext, hnext, hnil]
      · rw [charCount_cons (by omega), if_neg (by omega), hnext, hnext, hnext, hnil]

/-- On a text `charCount` counts what it was encoded from. -/
theorem charCount_flatMap (cs : List Char) :
    charCount (cs.flatMap String.utf8EncodeChar) = cs.length := by
  induction cs with
  | nil => rfl
  | cons c cs ih =>
    rw [List.flatMap_cons, charCount, List.countP_append]
    have hc := charCount_utf8EncodeChar c
    rw [charCount] at hc ih
    rw [hc, ih, List.length_cons, Nat.add_comm]

end TelemetryTestbed.Lib

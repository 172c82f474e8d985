import TelemetryTestbed.Laws.Persistence.History
import TelemetryTestbed.Persistence.StrMem

/-!
# The string buffer holds its texts

The buffer in memory is one of `Persistence.StrBuf` with its text written out behind `buf`
(`Refines`), and each operation does to it what the operation of the same name does there.
So a run of calls never leaves the block, and the block has the texts of the calls that
returned 0 (`strbuf_content`).

The refinement is kept by every call, in the short path and in the long one. Sizes are checked
as unsigned numbers of 64 bits: the bound on the texts keeps every sum and every doubling
below 2^64, and the invariant says how far the capacity can have come.
-/

namespace TelemetryTestbed.Persistence

open TelemetryTestbed.Lib

def sizeMax : Nat := 2 ^ 64 - 1

/-- The buffer of this text and capacity, in memory: its bytes are the text, a NUL and anything
up to the capacity. -/
structure StrMem.Refines (sb : StrMem) (a : StrBuf) : Prop where
  len : sb.len.toNat = a.text.length
  cap : sb.cap.toNat = a.cap
  buf : sb.buf = none ∧ a.cap = 0 ∨
    ∃ rest, sb.buf = some (Block.ofBytes a.text ++ some 0 :: rest) ∧
      (Block.ofBytes a.text ++ some 0 :: rest).length = a.cap

/-- The answer to a call on the one is that on the other. -/
structure Called.Refines (r : Called) (x : Appended) : Prop where
  rc : r.rc = if x.ok then 0 else -1
  sb : r.sb.Refines x.sb
  rest : r.rest = x.rest

variable {sb : StrMem} {a : StrBuf} {as : Answers}

theorem StrMem.refines_init : StrMem.init.Refines .empty where
  len := rfl
  cap := rfl
  buf := .inl ⟨rfl, rfl⟩

/-! ## The room -/

theorem doubled_of_le {n ncap need : Nat} (h : need ≤ ncap) : doubled n ncap need = ncap := by
  cases n with
  | zero => rfl
  | succ n => exact if_neg (Nat.not_lt.mpr h)

/-- The loop ends, with the capacity that `doubled` says. -/
theorem doublingLoop_eq {k n : Nat} {ncap need : UInt64} (hpos : 0 < ncap.toNat)
    (hneed : need.toNat ≤ 2 ^ 63) (hk : need.toNat ≤ ncap.toNat * 2 ^ k)
    (hn : need.toNat ≤ ncap.toNat + n) :
    ∃ r, doublingLoop k ncap need = some r ∧ r.toNat = doubled n ncap.toNat need.toNat := by
  induction k generalizing n ncap with
  | zero =>
    have hle : need.toNat ≤ ncap.toNat := by omega
    refine ⟨ncap, if_neg ?_, (doubled_of_le hle).symm⟩
    rw [UInt64.lt_iff_toNat_lt]
    exact Nat.not_lt.mpr hle
  | succ k ih =>
    by_cases hlt : ncap.toNat < need.toNat
    · have hdouble : (ncap * 2).toNat = ncap.toNat * 2 := by
        rw [UInt64.toNat_mul]
        exact Nat.mod_eq_of_lt (by show ncap.toNat * 2 < 2 ^ 64; omega)
      obtain ⟨n, rfl⟩ : ∃ n', n = n' + 1 := ⟨n - 1, by omega⟩
      rw [doublingLoop, if_pos (UInt64.lt_iff_toNat_lt.mpr hlt), doubled, if_pos hlt, ← hdouble]
      apply ih
      · omega
      · rw [hdouble, Nat.mul_assoc, Nat.mul_comm 2, ← Nat.pow_succ]
        exact hk
      · omega
    · have hle := Nat.not_lt.mp hlt
      refine ⟨ncap, if_neg ?_, (doubled_of_le hle).symm⟩
      rw [UInt64.lt_iff_toNat_lt]
      exact hlt

namespace StrMem.Refines

theorem need (h : sb.Refines a) {extra : UInt64}
    (hbound : a.text.length + extra.toNat < sizeMax / 2) :
    (sb.len + extra + 1).toNat = a.text.length + extra.toNat + 1 := by
  have hmax : sizeMax / 2 = 2 ^ 63 - 1 := rfl
  have hone : (1 : UInt64).toNat = 1 := rfl
  rw [UInt64.toNat_add, UInt64.toNat_add, h.len, hone]
  omega

/-- The capacity that is asked for. -/
theorem grown (h : sb.Refines a) {extra : UInt64}
    (hbound : a.text.length + extra.toNat < sizeMax / 2) :
    ∃ ncap, doublingLoop 64 (if sb.cap ≠ 0 then sb.cap else 1024) (sb.len + extra + 1) =
        some ncap ∧
      ncap.toNat = a.grown extra.toNat := by
  have hneed := h.need hbound
  have hmax : sizeMax / 2 = 2 ^ 63 - 1 := rfl
  have hstart : (if sb.cap ≠ 0 then sb.cap else 1024).toNat =
      if a.cap = 0 then 1024 else a.cap := by
    have hzero : sb.cap = 0 ↔ a.cap = 0 := by
      rw [← h.cap, ← UInt64.toNat_inj]
      rfl
    by_cases hcap : a.cap = 0
    · rw [if_neg (not_not.mpr (hzero.mpr hcap)), if_pos hcap]
      rfl
    · rw [if_pos (mt hzero.mp hcap), if_neg hcap, h.cap]
  have hpos : 0 < (if sb.cap ≠ 0 then sb.cap else 1024).toNat := by
    rw [hstart]
    split <;> omega
  obtain ⟨ncap, hloop, hncap⟩ := @doublingLoop_eq 64 (a.text.length + extra.toNat + 1) _ _ hpos
    (by rw [hneed]; omega) (by rw [hneed]; omega) (by rw [hneed]; omega)
  refine ⟨ncap, hloop, ?_⟩
  rw [hncap, hstart, hneed]
  rfl

/-- The text moves with the block. -/
theorem realloc (h : sb.Refines a) {size : Nat} (hsize : a.cap ≤ size) :
    ∃ rest, Block.realloc sb.buf size = Block.ofBytes a.text ++ rest ∧
      (Block.ofBytes a.text ++ rest).length = size := by
  rcases h.buf with ⟨hbuf, hzero⟩ | ⟨rest, hbuf, hlen⟩
  · have htext : a.text = [] := by
      rcases a.room with hroom | ⟨htext, _⟩
      · omega
      · exact htext
    rw [hbuf, htext]
    exact ⟨Block.malloc size, rfl, Block.length_malloc size⟩
  · have hfits : (Block.ofBytes a.text ++ some 0 :: rest).length ≤ size := hlen.trans_le hsize
    rw [hbuf]
    exact Block.realloc_append hfits

end StrMem.Refines

/-- There is room for the text and for what `sb_reserve` was called for. -/
structure StrMem.Reserved (sb : StrMem) (a : StrBuf) (room : Nat) : Prop where
  len : sb.len.toNat = a.text.length
  cap : sb.cap.toNat = room
  buf : ∃ rest, sb.buf = some (Block.ofBytes a.text ++ rest) ∧
    (Block.ofBytes a.text ++ rest).length = room

theorem sbReserveAt_refines (h : sb.Refines a) {extra : UInt64} {k : Nat} (as : Answers)
    (hk : extra.toNat = k) (hbound : a.text.length + k < sizeMax / 2) :
    match sbReserve a k as with
    | (none, as') => sbReserveAt sb extra as = some ⟨-1, sb, as'⟩
    | (some cap, as') =>
      ∃ sb', sbReserveAt sb extra as = some ⟨0, sb', as'⟩ ∧ sb'.Reserved a cap.1 := by
  subst hk
  have hroom : sb.len + extra + 1 ≤ sb.cap ↔ a.text.length + extra.toNat + 1 ≤ a.cap := by
    rw [UInt64.le_iff_toNat_le, h.need hbound, h.cap]
  unfold sbReserveAt sbReserve
  by_cases hfits : a.text.length + extra.toNat + 1 ≤ a.cap
  · rw [if_pos (hroom.mpr hfits), dif_pos hfits]
    refine ⟨sb, rfl, h.len, h.cap, ?_⟩
    rcases h.buf with ⟨-, hzero⟩ | ⟨rest, hbuf, hlen⟩
    · omega
    · exact ⟨_, hbuf, hlen⟩
  · rw [if_neg (mt hroom.mp hfits), dif_neg hfits]
    obtain ⟨ncap, hloop, hgrown⟩ := h.grown hbound
    dsimp only
    rw [hloop]
    cases hanswer : as.next.1 with
    | false => rfl
    | true =>
      have hle := a.le_grown extra.toNat
      have hsize : a.cap ≤ ncap.toNat := by omega
      obtain ⟨rest, hrealloc, hlength⟩ := h.realloc hsize
      refine ⟨⟨some (Block.realloc sb.buf ncap.toNat), sb.len, ncap⟩, rfl, h.len, hgrown, rest,
        ?_, ?_⟩
      · rw [hrealloc]
      · exact hlength.trans hgrown

/-! ## The operations -/

/-- The text goes behind the one that is there. -/
theorem sbCopyAt_refines (h : sb.Refines a) {src : Block} {n : UInt64} {text : Bytes}
    (as : Answers) (hn : n.toNat = text.length) (hlength : text.length ≤ src.length)
    (hsrc : src.take text.length = Block.ofBytes text)
    (hbound : a.text.length + text.length < sizeMax / 2) :
    ∃ r, sbCopyAt sb src n as = some r ∧ r.Refines (sbCopy a text as) ∧ (r.rc ≠ 0 → r.sb = sb) := by
  have hmax : sizeMax / 2 = 2 ^ 63 - 1 := rfl
  have hreserve := sbReserveAt_refines h as hn hbound
  unfold sbCopyAt sbCopy
  split at hreserve
  · next as' hpair =>
    rw [hreserve, hpair]
    exact ⟨⟨-1, sb, as'⟩, rfl, ⟨rfl, h, rfl⟩, fun _ => rfl⟩
  · next cap as' hpair =>
    obtain ⟨sb', heq, hres⟩ := hreserve
    obtain ⟨rest, hbuf, hrest⟩ := hres.buf
    rw [List.length_append, Block.length_ofBytes] at hrest
    have hroom := cap.2
    have hlen : (sb'.len + n).toNat = (a.text ++ text).length := by
      rw [UInt64.toNat_add, hres.len, List.length_append, hn]
      omega
    have hfits : text.length < rest.length := by omega
    obtain ⟨b, hcopy, hstore⟩ := @Block.memcpy_store (Block.ofBytes a.text) rest src text.length
      0 hfits hlength
    rw [Block.length_ofBytes] at hcopy hstore
    rw [hsrc, ← Block.ofBytes_append] at hstore
    rw [← hres.len, ← hn] at hcopy
    rw [← List.length_append, ← hlen] at hstore
    refine ⟨⟨0, ⟨some (Block.ofBytes (a.text ++ text) ++ some 0 :: rest.drop (text.length + 1)),
      sb'.len + n, sb'.cap⟩, as'⟩, ?_, ?_, fun hrc => absurd rfl hrc⟩
    · simp only [heq, hbuf, hcopy, hstore, Option.bind_eq_bind, Option.bind_some, Option.pure_def,
        ne_eq, not_true_eq_false, if_false]
    · rw [hpair]
      refine ⟨rfl, ⟨hlen, hres.cap, .inr ⟨rest.drop (text.length + 1), rfl, ?_⟩⟩, rfl⟩
      rw [List.length_append, Block.length_ofBytes, List.length_append, List.length_cons,
        List.length_drop]
      show a.text.length + text.length + (rest.length - (text.length + 1) + 1) = cap.1
      omega

theorem sbAppendAt_refines (h : sb.Refines a) (s : CText) (as : Answers)
    (hbound : a.text.length + s.bytes.length < sizeMax / 2) :
    ∃ r, sbAppendAt sb s.block as = some r ∧ r.Refines (sbCopy a s.bytes as) ∧
      (r.rc ≠ 0 → r.sb = sb) := by
  have hmax : sizeMax / 2 = 2 ^ 63 - 1 := rfl
  have hn : (UInt64.ofNat s.bytes.length).toNat = s.bytes.length :=
    UInt64.toNat_ofNat_of_lt' (by show s.bytes.length < 2 ^ 64; omega)
  have hcopy := @sbCopyAt_refines sb a h s.block (.ofNat s.bytes.length) s.bytes as hn
    (by simp [CText.block]) (by simp [CText.block]) hbound
  rw [sbAppendAt, CText.block, Block.string_ofBytes s.noNul]
  exact hcopy

/-- The `int` that `vsnprintf` returns as a `size_t`. -/
theorem ofInt_toInt_ofNat {n : Nat} (h : n < 2 ^ 31) :
    ¬ Int32.ofNat n < 0 ∧ UInt64.ofInt (Int32.ofNat n).toInt = .ofNat n ∧
      (UInt64.ofNat n).toNat = n := by
  have hint : (Int32.ofNat n).toInt = n := Int32.toInt_ofNat_of_lt h
  refine ⟨?_, ?_, UInt64.toNat_ofNat_of_lt' (by show n < 2 ^ 64; omega)⟩
  · rw [Int32.lt_iff_toInt_lt, hint]
    exact not_lt.mpr (Int.natCast_nonneg n)
  · have hmod : ((n : Int) % 2 ^ 64).toNat = n := by omega
    rw [hint, UInt64.ofInt, hmod]

theorem sbCopyAt_congr {src src' : Block} {n : UInt64} (hlength : n.toNat ≤ src.length)
    (hlength' : n.toNat ≤ src'.length) (h : src.take n.toNat = src'.take n.toNat) :
    sbCopyAt sb src n as = sbCopyAt sb src' n as := by
  have hcopy (dst : Block) (i : Nat) :
      Block.memcpy dst i src n.toNat = Block.memcpy dst i src' n.toNat := by
    simp only [Block.memcpy, hlength, hlength', and_true, h]
  simp only [sbCopyAt, hcopy]

/-- Up to 511 bytes `sb_appendf` copies from `tmp` what `sb_append` would copy. -/
theorem sbAppendfAt_short {s : CText} (hshort : s.bytes.length < 512) (sb : StrMem)
    (as : Answers) : sbAppendfAt sb (some s) as = sbAppendAt sb s.block as := by
  have hint : s.bytes.length < 2 ^ 31 := by omega
  obtain ⟨hpos, hn, htoNat⟩ := ofInt_toInt_ofNat hint
  have hlt : UInt64.ofNat s.bytes.length < 512 := by
    rw [UInt64.lt_iff_toNat_lt, htoNat]
    exact hshort
  have htmp := Block.vsnprintf_of_lt (.malloc 512) hint hshort (Block.length_malloc 512).ge
  rw [sbAppendAt, CText.block, Block.string_ofBytes s.noNul, sbAppendfAt, htmp]
  simp only [Option.bind_eq_bind, Option.bind_some, if_neg hpos, hn, if_pos hlt]
  apply sbCopyAt_congr <;> simp [htoNat]

/-- From 512 bytes on it is `sb_append` of `big`, if there is memory for it. -/
theorem sbAppendfAt_long {s : CText} (hlong : 512 ≤ s.bytes.length)
    (hint : s.bytes.length < 2 ^ 31) (sb : StrMem) (as : Answers) :
    sbAppendfAt sb (some s) as =
      if as.next.1 then sbAppendAt sb s.block as.next.2 else some ⟨-1, sb, as.next.2⟩ := by
  obtain ⟨hpos, hn, htoNat⟩ := ofInt_toInt_ofNat hint
  have hlt : ¬ UInt64.ofNat s.bytes.length < 512 := by
    rw [UInt64.lt_iff_toNat_lt, htoNat]
    exact not_lt.mpr hlong
  have hsize : (UInt64.ofNat s.bytes.length + 1).toNat = s.bytes.length + 1 := by
    have hone : (1 : UInt64).toNat = 1 := rfl
    rw [UInt64.toNat_add, htoNat, hone]
    omega
  obtain ⟨tmp, htmp⟩ := Block.vsnprintf_of_le (.malloc 512) hint hlong
    (Block.length_malloc 512).ge
  have hbig := Block.vsnprintf_of_lt (.malloc (s.bytes.length + 1)) hint
    (Nat.lt_succ_self _) (Block.length_malloc _).ge
  have hend : (Block.malloc (s.bytes.length + 1)).drop (s.bytes.length + 1) = [] :=
    List.drop_eq_nil_of_le (Block.length_malloc _).le
  rw [hend] at hbig
  rw [sbAppendfAt, htmp]
  simp only [Option.bind_eq_bind, Option.bind_some, if_neg hpos, hn, if_neg hlt, hsize, hbig,
    Option.pure_def]
  rfl

/-- Without a length `sb_appendf` fails. -/
theorem sbAppendfAt_fails {formatted : Option CText}
    (h : ∀ s ∈ formatted, 2 ^ 31 ≤ s.bytes.length) (sb : StrMem) (as : Answers) :
    sbAppendfAt sb formatted as = some ⟨-1, sb, as⟩ := by
  rw [sbAppendfAt, Block.vsnprintf_fails h]
  rfl

/-- The call of the reader and the call in memory. -/
theorem sbAppendfAt_refines (h : sb.Refines a) {fmt : Bytes} {args : List CArg} {s : CText}
    (hformat : cformat fmt args = some s.bytes) (hint : s.bytes.length < 2 ^ 31) (as : Answers)
    (hbound : a.text.length + s.bytes.length < sizeMax / 2) :
    ∃ r, sbAppendfAt sb (some s) as = some r ∧ r.Refines (sbAppendf a fmt args as) := by
  unfold sbAppendf
  simp only [hformat]
  by_cases hshort : s.bytes.length < 512
  · rw [if_pos hshort, sbAppendfAt_short hshort]
    obtain ⟨r, hr, hrefines, _⟩ := sbAppendAt_refines h s as hbound
    exact ⟨r, hr, hrefines⟩
  · rw [if_neg hshort, sbAppendfAt_long (Nat.not_lt.mp hshort) hint]
    cases hanswer : as.next.1 with
    | false => exact ⟨_, rfl, rfl, h, rfl⟩
    | true =>
      obtain ⟨r, hr, hrefines, _⟩ := sbAppendAt_refines h s as.next.2 hbound
      rw [if_pos rfl, if_pos rfl, sbAppend, cstr_eq_self s.noNul]
      exact ⟨r, hr, hrefines⟩

/-! ## The calls -/

/-- What a call leaves behind that has appended its text or nothing. -/
structure Called.Appends (r : Called) (sb : StrMem) (a : StrBuf) (text : Bytes) : Prop where
  refines : ∃ a', r.sb.Refines a' ∧ a'.text = a.text ++ if r.rc = 0 then text else []
  unchanged : r.rc ≠ 0 → r.sb = sb

theorem Called.Appends.failed (h : sb.Refines a) {text : Bytes} :
    Called.Appends ⟨-1, sb, as⟩ sb a text where
  refines := ⟨a, h, (List.append_nil _).symm⟩
  unchanged _ := rfl

theorem sbAppendAt_appends (h : sb.Refines a) (s : CText) (as : Answers)
    (hbound : a.text.length + s.bytes.length < sizeMax / 2) :
    ∃ r, sbAppendAt sb s.block as = some r ∧ r.Appends sb a s.bytes := by
  obtain ⟨r, hr, hrefines, hunchanged⟩ := sbAppendAt_refines h s as hbound
  refine ⟨r, hr, ⟨_, hrefines.sb, ?_⟩, hunchanged⟩
  rw [sbCopy_text, hrefines.rc]
  cases (sbCopy a s.bytes as).ok with
  | true => rfl
  | false => exact (List.append_nil _).symm

theorem SbCall.run_appends (h : sb.Refines a) (call : SbCall) (as : Answers)
    (hbound : a.text.length + call.text.length < sizeMax / 2) :
    ∃ r, call.run sb as = some r ∧ r.Appends sb a call.text := by
  cases call with
  | append s => exact sbAppendAt_appends h s as hbound
  | appendf formatted =>
    by_cases hfails : ∀ s ∈ formatted, 2 ^ 31 ≤ s.bytes.length
    · exact ⟨_, sbAppendfAt_fails hfails sb as, .failed h⟩
    · push Not at hfails
      obtain ⟨s, rfl, hint⟩ := hfails
      show ∃ r, sbAppendfAt sb (some s) as = some r ∧ r.Appends sb a s.bytes
      by_cases hshort : s.bytes.length < 512
      · rw [sbAppendfAt_short hshort]
        exact sbAppendAt_appends h s as hbound
      · rw [sbAppendfAt_long (Nat.not_lt.mp hshort) hint]
        split
        · exact sbAppendAt_appends h s as.next.2 hbound
        · exact ⟨_, rfl, .failed h⟩

/-- The texts of the calls that returned 0. -/
def written (returned : List (SbCall × Int32)) : Bytes :=
  returned.flatMap fun x => if x.2 = 0 then x.1.text else []

theorem written_concat (returned : List (SbCall × Int32)) (call : SbCall) (rc : Int32) :
    written (returned ++ [(call, rc)]) =
      written returned ++ if rc = 0 then call.text else [] := by
  rw [written, List.flatMap_append, List.flatMap_singleton]
  rfl

/-- The length of the texts of all the calls. -/
def totalLength (calls : List SbCall) : Nat := (calls.map fun call => call.text.length).sum

theorem sbRun_refines {calls : List SbCall} {s : SbRun} (h : s.sb.Refines a)
    (htext : a.text = written s.returned)
    (hbound : a.text.length + totalLength calls < sizeMax / 2) :
    ∃ s' a', exec SbRun.step s calls = some s' ∧ s'.sb.Refines a' ∧
      a'.text = written s'.returned ∧ s'.returned.map Prod.fst = s.returned.map Prod.fst ++ calls ∧
      a'.text.length ≤ a.text.length + totalLength calls := by
  induction calls generalizing s a with
  | nil => exact ⟨s, a, rfl, h, htext, (List.append_nil _).symm, Nat.le_refl _⟩
  | cons call calls ih =>
    have htotal : totalLength (call :: calls) = call.text.length + totalLength calls := rfl
    obtain ⟨r, hr, ⟨a₁, ha₁, htext₁⟩, _⟩ := call.run_appends h s.answers (by omega)
    have hlength : a₁.text.length ≤ a.text.length + call.text.length := by
      rw [htext₁, List.length_append]
      split
      · exact Nat.le_refl _
      · exact Nat.le_add_right _ _
    have hstep : s.step call = some ⟨r.sb, r.rest, s.returned ++ [(call, r.rc)]⟩ := by
      rw [SbRun.step, hr]
      rfl
    have hwritten : a₁.text = written (s.returned ++ [(call, r.rc)]) := by
      rw [htext₁, htext, written_concat]
    obtain ⟨s', a', hexec, ha', htext', hcalls, hle⟩ :=
      ih (s := ⟨r.sb, r.rest, s.returned ++ [(call, r.rc)]⟩) ha₁ hwritten (by omega)
    refine ⟨s', a', ?_, ha', htext', ?_, by omega⟩
    · rw [exec, hstep]
      exact hexec
    · rw [hcalls, List.map_append, List.append_assoc]
      rfl

/-- The buffer has this text, with a NUL behind it. -/
structure StrMem.Holds (sb : StrMem) (text : Bytes) : Prop where
  len : sb.len.toNat = text.length
  null : sb.buf = none → text = []
  block : ∀ b, sb.buf = some b → b.length = sb.cap.toNat ∧ sb.len.toNat + 1 ≤ sb.cap.toNat ∧
    b.take sb.len.toNat = Block.ofBytes text ∧ b[sb.len.toNat]? = some (some 0)

theorem StrMem.Refines.holds (h : sb.Refines a) : sb.Holds a.text := by
  refine ⟨h.len, fun hnull => ?_, fun b hb => ?_⟩
  · rcases h.buf with ⟨-, hzero⟩ | ⟨rest, hbuf, -⟩
    · rcases a.room with hroom | ⟨htext, -⟩
      · omega
      · exact htext
    · cases hnull.symm.trans hbuf
  · rcases h.buf with ⟨hbuf, -⟩ | ⟨rest, hbuf, hlength⟩
    · cases hbuf.symm.trans hb
    · cases hb.symm.trans hbuf
      rw [h.cap, h.len, ← Block.length_ofBytes a.text]
      refine ⟨hlength, ?_, List.take_left, ?_⟩
      · rw [List.length_append, List.length_cons] at hlength
        omega
      · rw [List.getElem?_append_right (Nat.le_refl _), Nat.sub_self]
        rfl

/-- `sb_reserve` ends, and where it returns 0 there is room for the NUL as well. -/
theorem sbReserveAt_room (h : sb.Refines a) {extra : UInt64} (as : Answers)
    (hbound : a.text.length + extra.toNat < sizeMax / 2) :
    ∃ r, sbReserveAt sb extra as = some r ∧
      (r.rc = 0 → sb.len.toNat + extra.toNat + 1 ≤ r.sb.cap.toNat) := by
  have hreserve := sbReserveAt_refines h as rfl hbound
  split at hreserve
  · exact ⟨_, hreserve, fun hrc => by cases hrc⟩
  · next cap _ _ =>
    obtain ⟨sb', heq, hres⟩ := hreserve
    refine ⟨_, heq, fun _ => ?_⟩
    show _ ≤ sb'.cap.toNat
    rw [h.len, hres.cap]
    exact cap.2

/-- The loop of `sb_reserve`, at the values it starts with. -/
theorem doublingLoop_room (h : sb.Refines a) {extra : UInt64}
    (hbound : a.text.length + extra.toNat < sizeMax / 2) :
    ∃ ncap, doublingLoop 64 (if sb.cap ≠ 0 then sb.cap else 1024) (sb.len + extra + 1) =
        some ncap ∧
      sb.len.toNat + extra.toNat + 1 ≤ ncap.toNat := by
  obtain ⟨ncap, hloop, hgrown⟩ := h.grown hbound
  refine ⟨ncap, hloop, ?_⟩
  rw [hgrown, h.len]
  exact a.le_grown extra.toNat

/-- What calls can be made next, where the texts so far have this total length. -/
structure SbRun.Ready (s : SbRun) (total : Nat) : Prop where
  failed : ∀ call : SbCall, total + call.text.length < sizeMax / 2 →
    ∃ r, call.run s.sb s.answers = some r ∧ (r.rc ≠ 0 → r.sb = s.sb)
  short : ∀ text : CText, text.bytes.length < 512 →
    sbAppendfAt s.sb (some text) s.answers = sbAppendAt s.sb text.block s.answers
  long : ∀ text : CText, 512 ≤ text.bytes.length → text.bytes.length < 2 ^ 31 →
    sbAppendfAt s.sb (some text) s.answers =
      if s.answers.next.1 then sbAppendAt s.sb text.block s.answers.next.2
      else some ⟨-1, s.sb, s.answers.next.2⟩
  reserve : ∀ extra : UInt64, total + extra.toNat < sizeMax / 2 →
    ∃ r, sbReserveAt s.sb extra s.answers = some r ∧
      (r.rc = 0 → s.sb.len.toNat + extra.toNat + 1 ≤ r.sb.cap.toNat)
  loop : ∀ extra : UInt64, total + extra.toNat < sizeMax / 2 →
    ∃ ncap, doublingLoop 64 (if s.sb.cap ≠ 0 then s.sb.cap else 1024) (s.sb.len + extra + 1) =
        some ncap ∧
      s.sb.len.toNat + extra.toNat + 1 ≤ ncap.toNat

/-- **The buffer holds what was appended.** Any calls of `sb_append` and `sb_appendf`, and any
pattern of failing allocations, as long as the texts together stay below half of what `size_t`
holds. All calls return; the block of the buffer holds the texts of the calls that returned 0,
one behind the other with a NUL at the end, and `len` is their length. `Ready` is what the next
calls can rely on: a call that fails leaves the buffer as it was, a short text and a long one go
the same way in the end, and the doubling of the capacity comes to an end. -/
theorem strbuf_content (answers : Answers) (calls : List SbCall)
    (hbound : totalLength calls < sizeMax / 2) :
    ∃ s, exec SbRun.step (.init answers) calls = some s ∧ s.returned.map Prod.fst = calls ∧
      s.sb.Holds (written s.returned) ∧ s.Ready (totalLength calls) := by
  obtain ⟨s, a, hexec, ha, htext, hcalls, hle⟩ :=
    @sbRun_refines .empty calls (.init answers) StrMem.refines_init rfl
      (by rw [show StrBuf.empty.text.length = 0 from rfl, Nat.zero_add]; exact hbound)
  rw [show StrBuf.empty.text.length = 0 from rfl, Nat.zero_add] at hle
  have hnext {n : Nat} (hn : totalLength calls + n < sizeMax / 2) :
      a.text.length + n < sizeMax / 2 := by omega
  refine ⟨s, hexec, hcalls, htext ▸ ha.holds, ?_⟩
  exact {
    failed := fun call hcall => by
      obtain ⟨r, hr, hr'⟩ := call.run_appends ha s.answers (hnext hcall)
      exact ⟨r, hr, hr'.unchanged⟩
    short := fun text hshort => sbAppendfAt_short hshort s.sb s.answers
    long := fun text hlong hint => sbAppendfAt_long hlong hint s.sb s.answers
    reserve := fun extra hextra => sbReserveAt_room ha s.answers (hnext hextra)
    loop := fun extra hextra => doublingLoop_room ha (hnext hextra) }

set_option maxRecDepth 20000 in
/-- The first allocation fails, and the second call appends. -/
theorem strbuf_content_second :
    ∃ s, exec SbRun.step (.init [false, true])
        [.append ⟨ascii "[", by decide⟩, .appendf (some ⟨ascii "null", by decide⟩)] = some s ∧
      s.returned.map Prod.snd = [-1, 0] ∧ s.sb.Holds (written s.returned) := by
  obtain ⟨s, hexec, -, hholds, -⟩ := strbuf_content [false, true]
    [.append ⟨ascii "[", by decide⟩, .appendf (some ⟨ascii "null", by decide⟩)] (by decide)
  refine ⟨s, hexec, ?_, hholds⟩
  cases hexec
  rfl

end TelemetryTestbed.Persistence

import Mathlib.Data.List.Basic

/-!
# Readers of a byte stream

What a socket answers is a list of events, one for each time the kernel has
something to say: data that arrived together, a signal, an error. A reader
takes events from the front and leaves the rest, also the rest of a piece it
did not want all of. `delivered` is what the events are worth in the end: the
bytes a reader can get before an error or the end of the stream.

A reader is `Stable` when more bytes behind those it was given change nothing
but what it leaves. Then it does not see how the stream was cut
(`Stable.congr`), and a message it consumes to the last byte is not accepted
when a byte is missing (`Stable.cut_short`).

Signals that interrupt a read are events of their own, which a reader may pass over or take
for a failure, as the program does. The order of the bytes is fixed by the kernel; only the
cuts are open. Time is not modelled: a reader that waits takes what comes next, whenever it
comes.
-/

namespace TelemetryTestbed.Lib

variable {α γ β : Type*}

/-- What the kernel has for a reader: bytes, a signal, or an error. No bytes are
the end of the stream. -/
inductive RecvEvent (β : Type*)
  | data (bytes : List β)
  | eintr
  | failed
  deriving DecidableEq

/-- The events still to come; behind the last one the peer has closed. -/
abbrev Incoming (β : Type*) := List (RecvEvent β)

/-- The bytes a reader can get from the events. -/
def delivered : Incoming β → List β
  | [] => []
  | .data [] :: _ => []
  | .data (b :: bs) :: inc => b :: bs ++ delivered inc
  | .eintr :: inc => delivered inc
  | .failed :: _ => []

/-- Handing back the rest of a piece. -/
def putBack (bytes : List β) (inc : Incoming β) : Incoming β :=
  if bytes.isEmpty then inc else .data bytes :: inc

@[simp] theorem delivered_putBack (bytes : List β) (inc : Incoming β) :
    delivered (putBack bytes inc) = bytes ++ delivered inc := by
  cases bytes <;> rfl

/-- A reader either fails or answers a value and leaves the rest of the events. -/
abbrev Reader (β α : Type*) := Incoming β → Option (α × Incoming β)

namespace Reader

/-- The reader that takes nothing. -/
def ret (a : α) : Reader β α := fun inc => some (a, inc)

/-- One reader after the other. -/
def andThen (r : Reader β α) (f : α → Reader β γ) : Reader β γ := fun inc =>
  match r inc with
  | none => none
  | some (a, rest) => f a rest

/-- The reader that fails where the condition does not hold. -/
def require (c : Prop) [Decidable c] (r : Reader β α) : Reader β α := fun inc =>
  if c then r inc else none

/-- Up to `n` values, as many as the reader answers before it fails. -/
def collect (r : Reader β α) : Nat → Incoming β → List α × Incoming β
  | 0, inc => ([], inc)
  | n + 1, inc =>
    match r inc with
    | none => ([], inc)
    | some (a, rest) => (a :: (collect r n rest).1, (collect r n rest).2)

theorem andThen_of_eq {r : Reader β α} {inc rest : Incoming β} {a : α}
    (h : r inc = some (a, rest)) (f : α → Reader β γ) : r.andThen f inc = f a rest := by
  simp only [andThen, h]

theorem andThen_of_none {r : Reader β α} {inc : Incoming β} (h : r inc = none)
    (f : α → Reader β γ) : r.andThen f inc = none := by
  simp only [andThen, h]

theorem andThen_fails {r : Reader β α} {f : α → Reader β γ} (h : ∀ a inc, f a inc = none)
    (inc : Incoming β) : r.andThen f inc = none := by
  cases hi : r inc with
  | none => exact andThen_of_none hi f
  | some p => rw [andThen_of_eq hi, h]

theorem andThen_assoc {δ : Type*} (r : Reader β α) (f : α → Reader β γ) (g : γ → Reader β δ) :
    (r.andThen f).andThen g = r.andThen fun a => (f a).andThen g := by
  funext inc
  cases h : r inc with
  | none => rw [andThen_of_none h, andThen_of_none (andThen_of_none h f)]
  | some p =>
    rw [andThen_of_eq h]
    simp only [andThen, h]

theorem require_pos {c : Prop} [Decidable c] (h : c) (r : Reader β α) : require c r = r :=
  funext fun _ => if_pos h

theorem require_neg {c : Prop} [Decidable c] (h : ¬ c) (r : Reader β α) (inc : Incoming β) :
    require c r inc = none := if_neg h

/-! ## What more bytes change -/

/-- On a stream that goes on, the reader answers the same and leaves more. -/
def Stable (r : Reader β α) : Prop :=
  ∀ (i j : Incoming β) (a : α) (rest : Incoming β) (t : List β),
    r i = some (a, rest) → delivered j = delivered i ++ t →
      ∃ rest', r j = some (a, rest') ∧ delivered rest' = delivered rest ++ t

theorem stable_ret (a : α) : Stable (ret a : Reader β α) := by
  intro i j b rest t h hj
  cases h
  exact ⟨j, rfl, hj⟩

theorem Stable.andThen {r : Reader β α} {f : α → Reader β γ} (hr : Stable r)
    (hf : ∀ a, Stable (f a)) : Stable (r.andThen f) := by
  intro i j c rest t h hj
  cases hi : r i with
  | none =>
    rw [andThen_of_none hi] at h
    cases h
  | some p =>
    rw [andThen_of_eq hi] at h
    obtain ⟨rest', hrj, hrest'⟩ := hr i j p.1 p.2 t hi hj
    rw [andThen_of_eq hrj]
    exact hf p.1 p.2 rest' c rest t h hrest'

theorem Stable.require {c : Prop} [Decidable c] {r : Reader β α} (hr : Stable r) :
    Stable (require c r) := by
  intro i j a rest t h hj
  by_cases hc : c
  · rw [require_pos hc] at h ⊢
    exact hr i j a rest t h hj
  · rw [require_neg hc] at h
    cases h

theorem Stable.ite {c : Prop} [Decidable c] {r s : Reader β α} (hr : Stable r)
    (hs : Stable s) : Stable (if c then r else s) := by
  split
  · exact hr
  · exact hs

/-- A stable reader sees the bytes and not the events. -/
theorem Stable.congr {r : Reader β α} (hr : Stable r) {i j : Incoming β}
    (h : delivered i = delivered j) :
    (r i).map (fun p => (p.1, delivered p.2)) = (r j).map fun p => (p.1, delivered p.2) := by
  cases hi : r i with
  | none =>
    cases hj : r j with
    | none => rfl
    | some q =>
      obtain ⟨rest, hri, -⟩ := hr j i q.1 q.2 [] hj (by rw [h, List.append_nil])
      rw [hi] at hri
      cases hri
  | some p =>
    obtain ⟨rest, hrj, hrest⟩ := hr i j p.1 p.2 [] hi (by rw [h, List.append_nil])
    rw [hrj]
    simp [hrest]

/-- So does the list of the values it answers one after the other. -/
theorem Stable.collect_congr {r : Reader β α} (hr : Stable r) (n : Nat) {i j : Incoming β}
    (h : delivered i = delivered j) :
    (r.collect n i).1 = (r.collect n j).1 ∧
      delivered (r.collect n i).2 = delivered (r.collect n j).2 := by
  induction n generalizing i j with
  | zero => exact ⟨rfl, h⟩
  | succ n ih =>
    have hc := hr.congr h
    cases hi : r i with
    | none =>
      cases hj : r j with
      | none => simp only [collect, hi, hj, h, and_self]
      | some q => simp [hi, hj] at hc
    | some p =>
      cases hj : r j with
      | none => simp [hi, hj] at hc
      | some q =>
        simp only [hi, hj, Option.map_some, Option.some.injEq, Prod.mk.injEq] at hc
        obtain ⟨hv, hrest⟩ := hc
        obtain ⟨hl, hd⟩ := ih hrest
        simp only [collect, hi, hj, hv, hl, hd, and_self]

/-- What a reader refuses, it refuses before all of it is there. -/
theorem Stable.refuses_part {r : Reader β α} (hr : Stable r) {i j : Incoming β}
    (hi : r i = none) (h : delivered j <+: delivered i) : r j = none := by
  obtain ⟨t, ht⟩ := h
  cases hj : r j with
  | none => rfl
  | some q =>
    obtain ⟨rest, hri, -⟩ := hr j i q.1 q.2 t hj ht.symm
    rw [hi] at hri
    cases hri

/-- What is read to the last byte is not there when bytes are missing. -/
theorem Stable.cut_short {r : Reader β α} (hr : Stable r) {i j rest : Incoming β} {a : α}
    {t : List β} (hi : r i = some (a, rest)) (hall : delivered rest = [])
    (hcut : delivered i = delivered j ++ t) (ht : t ≠ []) : r j = none := by
  cases hj : r j with
  | none => rfl
  | some q =>
    obtain ⟨rest', hri, hrest'⟩ := hr j i q.1 q.2 t hj hcut
    rw [hi] at hri
    cases hri
    rw [hall] at hrest'
    exact absurd (List.append_eq_nil_iff.mp hrest'.symm).2 ht

end Reader

/-! ## Reading bytes that are known -/

/-- The reader answers `a` for the bytes `w`, whatever comes after them, and takes
these bytes and no more. -/
def Reader.Reads (r : Reader β α) (w : List β) (a : α) : Prop :=
  ∀ (inc : Incoming β) (t : List β), delivered inc = w ++ t →
    ∃ rest, r inc = some (a, rest) ∧ delivered rest = t

namespace Reader.Reads

theorem ret (a : α) : (Reader.ret a : Reader β α).Reads [] a :=
  fun inc _ h => ⟨inc, rfl, h⟩

theorem andThen {r : Reader β α} {f : α → Reader β γ} {v w : List β} {a : α} {c : γ}
    (hr : r.Reads v a) (hf : (f a).Reads w c) : (r.andThen f).Reads (v ++ w) c := by
  intro inc t h
  rw [List.append_assoc] at h
  obtain ⟨rest, hi, hrest⟩ := hr inc (w ++ t) h
  rw [Reader.andThen_of_eq hi]
  exact hf rest t hrest

/-- What is read is only looked at. -/
theorem map {r : Reader β α} {w : List β} {a : α} (hr : r.Reads w a) (f : α → γ) :
    (r.andThen fun a => .ret (f a)).Reads w (f a) := by
  have h := hr.andThen (f := fun a => Reader.ret (f a)) (Reads.ret (f a))
  rwa [List.append_nil] at h

theorem require {c : Prop} [Decidable c] (hc : c) {r : Reader β α} {w : List β} {a : α}
    (hr : r.Reads w a) : (Reader.require c r).Reads w a := by
  rw [Reader.require_pos hc]
  exact hr

/-- One known message after the other. -/
theorem collect {r : Reader β α} {ws : List (List β)} {as : List α}
    (h : List.Forall₂ r.Reads ws as) {inc : Incoming β} {t : List β}
    (hinc : delivered inc = ws.flatten ++ t) :
    ∀ n ≤ as.length, (r.collect n inc).1 = as.take n ∧
      delivered (r.collect n inc).2 = (ws.drop n).flatten ++ t := by
  induction h generalizing inc with
  | nil =>
    intro n hn
    obtain rfl := Nat.le_zero.mp hn
    exact ⟨rfl, hinc⟩
  | @cons w a ws as hw _ ih =>
    intro n hn
    cases n with
    | zero => exact ⟨rfl, hinc⟩
    | succ n =>
      rw [List.flatten_cons, List.append_assoc] at hinc
      obtain ⟨rest, hr, hrest⟩ := hw inc _ hinc
      obtain ⟨hv, hd⟩ := ih hrest n (Nat.le_of_succ_le_succ hn)
      simp only [Reader.collect, hr, List.take_succ_cons, List.drop_succ_cons, hv, hd, and_self]

/-- A message that is cut at any byte is not read. -/
theorem cut_short {r : Reader β α} (hs : r.Stable) {w : List β} {a : α} (hr : r.Reads w a)
    {inc : Incoming β} {t : List β} (hcut : w = delivered inc ++ t) (ht : t ≠ []) :
    r inc = none := by
  have hw : delivered (putBack w ([] : Incoming β)) = w ++ [] := delivered_putBack w []
  obtain ⟨rest, hi, hrest⟩ := hr _ [] hw
  rw [List.append_nil, hcut] at hw
  exact hs.cut_short hi hrest (by rw [hcut, hw]) ht

end Reader.Reads

end TelemetryTestbed.Lib

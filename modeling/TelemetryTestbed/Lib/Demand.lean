import Mathlib.Data.List.Basic

/-!
# Readers that wait

A reader that asks for exactly so many bytes at a time, as it stands between two
answers: what it still wants, and how it goes on from there. A piece of the bytes
leaves the reader that wants the rest (`feed`). `Accepts` says which bytes lead it to
which value; a piece from the front of such bytes leaves a reader of the others
(`Accepts.feed`), however the bytes are cut.

The type is that of a reader between two answers, so it can be stored in the state of a
machine, where a function that reads has to be called again from its beginning. The lengths
say when a piece must not go past the end of what is asked for: `room` is how much the reader
can take before it looks at the bytes.
-/

namespace TelemetryTestbed.Lib

/-- A reader that has its value, has failed, or wants `n + 1` bytes. -/
inductive Demand (β α : Type*)
  | ret (a : α)
  | fail
  | more (n : Nat) (next : List β → Demand β α)

namespace Demand

variable {α β γ : Type*}

/-- The reader of `n` bytes. -/
def exactly : Nat → Demand β (List β)
  | 0 => ret []
  | n + 1 => more n ret

/-- One reader after the other. -/
def andThen : Demand β α → (α → Demand β γ) → Demand β γ
  | ret a, f => f a
  | fail, _ => fail
  | more n next, f => more n fun bytes => (next bytes).andThen f

/-- The reader that fails where the condition does not hold. -/
def require (c : Prop) [Decidable c] (d : Demand β α) : Demand β α := if c then d else fail

/-- The number of bytes that are wanted. -/
def room : Demand β α → Nat
  | more n _ => n + 1
  | _ => 0

/-- The reader behind a piece of what it wanted. -/
def feed : Demand β α → List β → Demand β α
  | more n next, bytes =>
    if bytes.length ≤ n then more (n - bytes.length) fun rest => next (bytes ++ rest)
    else next bytes
  | d, _ => d

/-- These bytes, and no byte more, lead to the value. -/
def Accepts : Demand β α → List β → α → Prop
  | ret b, w, a => w = [] ∧ b = a
  | fail, _, _ => False
  | more n next, w, a => n < w.length ∧ (next (w.take (n + 1))).Accepts (w.drop (n + 1)) a

variable {d : Demand β α} {v w : List β} {a : α}

theorem Accepts.room_le (h : d.Accepts w a) : d.room ≤ w.length := by
  cases d with
  | ret b => exact Nat.zero_le _
  | fail => cases h
  | more n next => exact h.1

theorem Accepts.feed (h : d.Accepts (v ++ w) a) (hlen : v.length ≤ d.room) :
    (d.feed v).Accepts w a := by
  cases d with
  | ret b =>
    obtain rfl := List.length_eq_zero_iff.mp (Nat.le_zero.mp hlen)
    exact h
  | fail => cases h
  | more n next =>
    obtain ⟨hn, hnext⟩ := h
    rw [List.length_append] at hn
    by_cases hle : v.length ≤ n
    · have hrest : n - v.length + 1 = n + 1 - v.length := by omega
      rw [Demand.feed, if_pos hle]
      refine ⟨by omega, ?_⟩
      rw [List.take_append, List.take_of_length_le (by omega), List.drop_append,
        List.drop_of_length_le (by omega), List.nil_append] at hnext
      rw [hrest]
      exact hnext
    · have hall : n + 1 = v.length := Nat.le_antisymm (Nat.not_le.mp hle) hlen
      rw [hall, List.take_left, List.drop_left] at hnext
      rw [Demand.feed, if_neg hle]
      exact hnext

end Demand

end TelemetryTestbed.Lib

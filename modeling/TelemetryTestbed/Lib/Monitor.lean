import Mathlib.Logic.Function.Basic

/-!
# A mutex and its condition variable

Who holds the mutex, and who waits on the condition variable; a thread that waits has
been woken or not. Waiting gives the mutex back in the same step, and a thread comes out
of its wait only when it can take the mutex again, woken or not. A signal that finds
nobody waiting is lost.

A thread that comes out of its wait does so in one step with taking the mutex, and it may do
so without having been woken, as POSIX allows. `Exclusive` is the invariant that the users
carry: whoever is inside owns the mutex. Fairness is not assumed, and nothing says that a
blocked thread ever runs.
-/

namespace TelemetryTestbed.Lib

/-- A mutex and a condition variable: who holds the one, and who waits on the other. -/
structure Monitor (ι : Type*) where
  owner : Option ι
  /-- `none` for a thread that does not wait; otherwise whether it has been woken. -/
  waiting : ι → Option Bool

namespace Monitor

variable {ι : Type*}

def free : Monitor ι := ⟨none, fun _ => none⟩

/-- Taking the mutex has to wait while somebody holds it. -/
def lock (m : Monitor ι) (i : ι) : Option (Monitor ι) :=
  match m.owner with
  | none => some { m with owner := some i }
  | some _ => none

def unlock (m : Monitor ι) : Monitor ι := { m with owner := none }

/-- Everybody who waits is woken. -/
def broadcast (m : Monitor ι) : Monitor ι :=
  { m with waiting := fun j => (m.waiting j).map fun _ => true }

variable [DecidableEq ι]

def wait (m : Monitor ι) (i : ι) : Monitor ι :=
  { owner := none, waiting := Function.update m.waiting i (some false) }

/-- A signal that reaches `i`, if `i` waits. -/
def signal (m : Monitor ι) (i : ι) : Monitor ι :=
  { m with waiting := Function.update m.waiting i ((m.waiting i).map fun _ => true) }

/-- Coming out of a wait. -/
def resume (m : Monitor ι) (i : ι) (spurious : Bool) : Option (Monitor ι) :=
  match m.owner, m.waiting i with
  | none, some woken =>
    if woken || spurious then
      some { owner := some i, waiting := Function.update m.waiting i none }
    else none
  | _, _ => none

/-- The thread waits, and nothing has woken it. -/
def Blocked (m : Monitor ι) (i : ι) : Prop := m.waiting i = some false

variable {m m' : Monitor ι} {i : ι}

omit [DecidableEq ι] in
theorem lock_eq_some (h : m.lock i = some m') :
    m.owner = none ∧ m' = { m with owner := some i } := by
  unfold lock at h
  split at h
  · next howner =>
    cases h
    exact ⟨howner, rfl⟩
  · cases h

theorem resume_eq_some {spurious : Bool} (h : m.resume i spurious = some m') :
    m.owner = none ∧ m'.owner = some i ∧ m'.waiting = Function.update m.waiting i none := by
  unfold resume at h
  split at h
  · next howner _ =>
    split at h
    · cases h
      exact ⟨howner, rfl, rfl⟩
    · cases h
  · cases h

omit [DecidableEq ι] in
/-- After a broadcast nobody is blocked. -/
theorem not_blocked_broadcast : ¬ m.broadcast.Blocked i := by
  unfold Blocked broadcast
  cases m.waiting i <;> simp

theorem not_blocked_signal : ¬ (m.signal i).Blocked i := by
  simp only [Blocked, signal, Function.update_self]
  cases m.waiting i <;> simp

omit [DecidableEq ι] in
/-- A broadcast takes nobody out of the wait. -/
theorem waiting_broadcast_ne_none (h : m.waiting i ≠ none) : m.broadcast.waiting i ≠ none := by
  simpa only [broadcast, ne_eq, Option.map_eq_none_iff] using h

theorem waiting_signal_ne_none (h : m.waiting i ≠ none) : (m.signal i).waiting i ≠ none := by
  simpa only [signal, Function.update_self, ne_eq, Option.map_eq_none_iff] using h

/-! ## Who is inside -/

/-- The threads that are inside their critical sections are those that hold the mutex. -/
def Exclusive (m : Monitor ι) (inside : ι → Bool) : Prop :=
  ∀ i, m.owner = some i ↔ inside i = true

namespace Exclusive

variable {inside : ι → Bool} {j : ι}

omit [DecidableEq ι] in
/-- No two threads are inside. -/
theorem unique (h : m.Exclusive inside) (hi : inside i = true) (hj : inside j = true) : i = j :=
  Option.some.inj (((h i).mpr hi).symm.trans ((h j).mpr hj))

omit [DecidableEq ι] in
theorem nobody (h : m.Exclusive inside) (ho : m.owner = none) (i : ι) : inside i = false := by
  rw [Bool.eq_false_iff]
  intro hi
  cases ho.symm.trans ((h i).mpr hi)

/-- A thread takes the free mutex. -/
theorem enter (h : m.Exclusive inside) (ho : m.owner = none) (ho' : m'.owner = some i) :
    m'.Exclusive (Function.update inside i true) := by
  intro k
  rw [ho', Function.update_apply, Option.some.injEq]
  by_cases hk : k = i
  · rw [if_pos hk]
    exact ⟨fun _ => rfl, fun _ => hk.symm⟩
  · rw [if_neg hk, h.nobody ho k]
    exact ⟨fun e => absurd e.symm hk, fun e => Bool.noConfusion e⟩

/-- The thread that is inside gives the mutex back. -/
theorem leave (h : m.Exclusive inside) (hi : inside i = true) (ho' : m'.owner = none) :
    m'.Exclusive (Function.update inside i false) := by
  intro k
  rw [ho', Function.update_apply]
  by_cases hk : k = i
  · rw [if_pos hk]
    exact ⟨fun e => (by cases e), fun e => Bool.noConfusion e⟩
  · rw [if_neg hk]
    exact ⟨fun e => (by cases e), fun hk' => absurd (h.unique hk' hi) hk⟩

/-- A thread stays where it is, inside or outside. -/
theorem stay {b : Bool} (h : m.Exclusive inside) (ho' : m'.owner = m.owner) (hb : b = inside i) :
    m'.Exclusive (Function.update inside i b) := by
  rw [hb, Function.update_eq_self]
  intro k
  rw [ho']
  exact h k

end Exclusive

end Monitor

end TelemetryTestbed.Lib

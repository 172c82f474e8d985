import Mathlib.Logic.Function.Basic

/-!
# Ownership tables

A table says who owns each name; a view says which name each owner holds. `Owns`
is their agreement: a name has at most one owner, an owner holds at most one
name, and both sides know. Taking a free name and giving up a held one keep it.

Names and owners are any types, and both sides are functions, which is how a machine with a
table and a state for each party has them. `proj_update` moves an assignment to the state of
one party into the view, so a step that leaves the held name alone keeps the agreement.
-/

namespace TelemetryTestbed.Lib

variable {κ ν α β : Type*} [DecidableEq κ] [DecidableEq ν]

/-- A projection of an updated assignment. -/
theorem proj_update (f : α → β) (st : κ → α) (k : κ) (y : α) :
    (fun j => f (Function.update st k y j)) = Function.update (fun j => f (st j)) k (f y) :=
  Function.comp_update f st k y

/-- An update that a projection does not see. -/
theorem proj_keep {f : α → β} {st : κ → α} {k : κ} {y : α} (h : f y = f (st k)) :
    (fun j => f (Function.update st k y j)) = fun j => f (st j) := by
  rw [proj_update, h]
  exact Function.update_eq_self k _

/-- The table and the view agree. -/
def Owns (view : κ → Option ν) (table : ν → Option κ) : Prop :=
  ∀ n k, table n = some k ↔ view k = some n

namespace Owns

variable {view : κ → Option ν} {table : ν → Option κ} {n : ν} {k k' : κ}

omit [DecidableEq κ] [DecidableEq ν] in
theorem unique (h : Owns view table) (hk : view k = some n) (hk' : view k' = some n) :
    k = k' := by
  have h1 := (h n k).mpr hk
  rw [(h n k').mpr hk'] at h1
  exact (Option.some.inj h1).symm

theorem take (h : Owns view table) (hk : view k = none) (hn : table n = none) :
    Owns (Function.update view k (some n)) (Function.update table n (some k)) := by
  intro m j
  simp only [Function.update_apply]
  by_cases hm : m = n
  · by_cases hj : j = k
    · simp only [hm, hj, if_true]
    · simp only [hm, hj, if_true, if_false, Option.some.injEq]
      refine ⟨fun e => absurd e.symm hj, fun e => ?_⟩
      rw [(h n j).mpr e] at hn
      cases hn
  · by_cases hj : j = k
    · simp only [hm, hj, if_true, if_false, Option.some.injEq]
      refine ⟨fun e => ?_, fun e => absurd e.symm hm⟩
      rw [(h m k).mp e] at hk
      cases hk
    · simp only [hm, hj, if_false]
      exact h m j

theorem drop (h : Owns view table) (hk : view k = some n) :
    Owns (Function.update view k none) (Function.update table n none) := by
  intro m j
  simp only [Function.update_apply]
  by_cases hm : m = n
  · by_cases hj : j = k
    · simp only [hm, hj, if_true, reduceCtorEq]
    · simp only [hm, hj, if_true, if_false, reduceCtorEq, false_iff]
      exact fun e => hj (h.unique e hk)
  · by_cases hj : j = k
    · simp only [hm, hj, if_true, if_false, reduceCtorEq, iff_false]
      intro e
      rw [(h m k).mp e] at hk
      exact hm (Option.some.inj hk)
    · simp only [hm, hj, if_false]
      exact h m j

end Owns

end TelemetryTestbed.Lib

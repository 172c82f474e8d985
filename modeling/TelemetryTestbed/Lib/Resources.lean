import Mathlib.Data.List.Nodup
import TelemetryTestbed.Lib.Run

/-!
# Taking and giving back resources

What a program does to its resources is a sequence of events. A resource stands on
others: it is taken when those are there, and given back when nothing stands on it.
`resourceStep` is the machine that refuses anything else, so the sequences that it
takes from nothing to nothing are those where each resource is given back as often as
it was taken, none of them before its users.

`Ledger` describes what is held by a predicate, since the order in which things were taken
does not matter for what may come next, and `Pays` is the triple for a stretch of events: from
what is held before it to what is held behind it. A release that is refused stops the run, and
so does touching what is not held, so a run that goes through contains neither.
-/

namespace TelemetryTestbed.Lib

/-- What is done to a resource: it is taken, given back or used. -/
inductive Event (ρ : Type*)
  | acquire (r : ρ)
  | release (r : ρ)
  /-- The resource is used for a moment. -/
  | touch (r : ρ)
  deriving DecidableEq

variable {ρ : Type*} [DecidableEq ρ]

/-- An event, where `held` is what has been taken and not yet given back, and `uses r` is
what `r` stands on. -/
def resourceStep (uses : ρ → List ρ) (held : List ρ) : Event ρ → Option (List ρ)
  | .acquire r => if r ∉ held ∧ ∀ u ∈ uses r, u ∈ held then some (r :: held) else none
  | .release r => if r ∈ held ∧ ∀ u ∈ held, r ∉ uses u then some (held.erase r) else none
  | .touch r => if r ∈ held then some held else none

variable {uses : ρ → List ρ} {held held' : List ρ} {e : Event ρ} {es : List (Event ρ)}

/-- The resources of a set are held, each of them once. -/
structure Ledger (held : List ρ) (P : ρ → Prop) : Prop where
  distinct : held.Nodup
  mem : ∀ r, r ∈ held ↔ P r

/-- The events lead from the one set to the other. -/
def Pays (uses : ρ → List ρ) (P : ρ → Prop) (es : List (Event ρ)) (P' : ρ → Prop) : Prop :=
  ∀ held, Ledger held P → ∃ held', exec (resourceStep uses) held es = some held' ∧ Ledger held' P'

namespace Pays

variable {P P₁ P' : ρ → Prop} {r : ρ}

theorem nil (h : ∀ x, P' x ↔ P x) : Pays uses P [] P' :=
  fun held hheld => ⟨held, rfl, hheld.distinct, fun x => (hheld.mem x).trans (h x).symm⟩

theorem congr (h : Pays uses P es P₁) (h₁ : ∀ x, P' x ↔ P₁ x) : Pays uses P es P' := by
  intro held hheld
  obtain ⟨held', hrun, hheld'⟩ := h held hheld
  exact ⟨held', hrun, hheld'.distinct, fun x => (hheld'.mem x).trans (h₁ x).symm⟩

theorem append {es' : List (Event ρ)} (h : Pays uses P es P₁) (h' : Pays uses P₁ es' P') :
    Pays uses P (es ++ es') P' := by
  intro held hheld
  obtain ⟨m, hm, hheldm⟩ := h held hheld
  obtain ⟨held', hrun, hheld'⟩ := h' m hheldm
  exact ⟨held', exec_trans hm hrun, hheld'⟩

theorem acquire (hnew : ¬ P r) (huses : ∀ u ∈ uses r, P u) (h₁ : ∀ x, P₁ x ↔ x = r ∨ P x)
    (h : Pays uses P₁ es P') : Pays uses P (.acquire r :: es) P' := by
  intro held hheld
  have hfree : r ∉ held := fun hin => hnew ((hheld.mem r).mp hin)
  have hmem : ∀ x, x ∈ r :: held ↔ P₁ x := by
    intro x
    rw [List.mem_cons, hheld.mem, h₁]
  obtain ⟨held', hrun, hheld'⟩ := h (r :: held) ⟨List.nodup_cons.mpr ⟨hfree, hheld.distinct⟩, hmem⟩
  refine ⟨held', ?_, hheld'⟩
  rw [exec, resourceStep, if_pos ⟨hfree, fun u hu => (hheld.mem u).mpr (huses u hu)⟩]
  exact hrun

theorem release (hr : P r) (hunused : ∀ u, P u → r ∉ uses u) (h₁ : ∀ x, P₁ x ↔ x ≠ r ∧ P x)
    (h : Pays uses P₁ es P') : Pays uses P (.release r :: es) P' := by
  intro held hheld
  have hmem : ∀ x, x ∈ held.erase r ↔ P₁ x := by
    intro x
    rw [hheld.distinct.mem_erase_iff, hheld.mem, h₁]
  obtain ⟨held', hrun, hheld'⟩ := h (held.erase r) ⟨hheld.distinct.erase r, hmem⟩
  refine ⟨held', ?_, hheld'⟩
  rw [exec, resourceStep,
    if_pos ⟨(hheld.mem r).mpr hr, fun u hu => hunused u ((hheld.mem u).mp hu)⟩]
  exact hrun

theorem touch (hr : P r) (h : Pays uses P es P') : Pays uses P (.touch r :: es) P' := by
  intro held hheld
  obtain ⟨held', hrun, hheld'⟩ := h held hheld
  refine ⟨held', ?_, hheld'⟩
  rw [exec, resourceStep, if_pos ((hheld.mem r).mpr hr)]
  exact hrun

end Pays

end TelemetryTestbed.Lib

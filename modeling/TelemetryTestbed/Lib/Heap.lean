import Mathlib.Data.Fintype.EquivFin
import Mathlib.Data.List.Nodup
import Mathlib.Logic.Function.Basic

/-!
# What is on the heap

A heap gives blocks to some addresses. `Accounts` is the balance of it: the blocks
that are there are those of a list of holders, no address among them twice. Taking a
free address adds a holder, releasing a block of one holder leaves the others theirs,
and where nobody holds anything the heap is empty.

Addresses are any infinite type, so there is always a free one (`exists_free`); an allocator
that reuses an address as soon as it is free is among the ones covered. The holders are a list
because one address with two holders is what the balance excludes.
-/

namespace TelemetryTestbed.Lib

variable {ν β : Type*}

/-- The blocks of the heap are these, each of them once. -/
structure Accounts (heap : ν → Option β) (held : List (ν × β)) : Prop where
  distinct : (held.map Prod.fst).Nodup
  block : ∀ r b, heap r = some b ↔ (r, b) ∈ held

namespace Accounts

variable {heap : ν → Option β} {held held' : List (ν × β)} {r : ν} {b : β}

theorem empty : Accounts (fun _ => none : ν → Option β) [] where
  distinct := List.nodup_nil
  block _ _ := ⟨nofun, nofun⟩

theorem eq_empty (h : Accounts heap []) : heap = fun _ => none := by
  funext r
  cases hr : heap r with
  | none => rfl
  | some b => cases (h.block r b).mp hr

/-- The order of the holders does not matter. -/
theorem perm (h : Accounts heap held) (hperm : held.Perm held') : Accounts heap held' where
  distinct := ((hperm.map Prod.fst).nodup_iff).mp h.distinct
  block r b := (h.block r b).trans hperm.mem_iff

theorem notMem_of_none (h : Accounts heap held) (hr : heap r = none) : r ∉ held.map Prod.fst := by
  intro hmem
  obtain ⟨⟨_, b⟩, hb, rfl⟩ := List.mem_map.mp hmem
  rw [(h.block _ b).mpr hb] at hr
  cases hr

variable [DecidableEq ν]

/-- There is an address to hand out. -/
theorem exists_free [Infinite ν] (h : Accounts heap held) : ∃ r, heap r = none := by
  obtain ⟨r, hr⟩ := Infinite.exists_notMem_finset (held.map Prod.fst).toFinset
  rw [List.mem_toFinset] at hr
  refine ⟨r, ?_⟩
  cases hb : heap r with
  | none => rfl
  | some b => exact absurd (List.mem_map_of_mem ((h.block r b).mp hb)) hr

/-- A free address is handed out. -/
theorem alloc (h : Accounts heap held) (hr : heap r = none) (b : β) :
    Accounts (Function.update heap r (some b)) ((r, b) :: held) where
  distinct := by
    rw [List.map_cons, List.nodup_cons]
    exact ⟨h.notMem_of_none hr, h.distinct⟩
  block r' b' := by
    rw [List.mem_cons, Prod.mk.injEq, Function.update_apply]
    split
    next heq =>
      have hout : (r', b') ∉ held := fun hmem =>
        h.notMem_of_none hr (heq ▸ List.mem_map_of_mem hmem)
      rw [Option.some.injEq, eq_comm]
      exact ⟨fun hb => Or.inl ⟨heq, hb⟩, fun hb => (hb.resolve_right hout).2⟩
    next hne =>
      rw [h.block]
      exact ⟨Or.inr, fun hb => hb.resolve_left fun hb => hne hb.1⟩

/-- The first holder releases its block. -/
theorem free (h : Accounts heap ((r, b) :: held)) :
    Accounts (Function.update heap r none) held := by
  have hnodup := h.distinct
  rw [List.map_cons, List.nodup_cons] at hnodup
  refine ⟨hnodup.2, fun r' b' => ?_⟩
  rw [Function.update_apply]
  split
  next heq =>
    refine ⟨nofun, fun hb => ?_⟩
    have hmem : r' ∈ held.map Prod.fst := List.mem_map_of_mem hb
    exact absurd (heq ▸ hmem) hnodup.1
  next hne =>
    rw [h.block, List.mem_cons, Prod.mk.injEq]
    exact ⟨fun hb => hb.resolve_left fun hb => hne hb.1, Or.inr⟩

end Accounts

end TelemetryTestbed.Lib

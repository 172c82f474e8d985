import Mathlib.Data.List.Nodup
import Mathlib.Logic.Function.Basic

/-!
# Singly linked lists in a heap

`Linked` follows the `next` fields from a pointer to the end and says which cells
it passes. What is not a cell of the list can be stored to; the first cell can be
taken off; a cell can be hung behind the last one.

A program that walks with a pointer to a link takes a cell out by
one store, in front of the list and inside it alike (`Holds.unlink`).

A list is described by its cells, address and value, in order; `Holds` says besides that no
address occurs twice. Freed cells are gone from the heap, so a pointer to one cannot be
followed, and a rule that needs a cell says that it is there.
-/

namespace TelemetryTestbed.Lib

variable {ν α : Type*}

/-- A cell of the list: its value and its `next` field, which is NULL in the last one. -/
structure Node (ν α : Type*) where
  val : α
  next : Option ν

/-- The cells from a pointer on: addresses and values. -/
def Linked (nodes : ν → Option (Node ν α)) : Option ν → List (ν × α) → Prop
  | p, [] => p = none
  | p, (r, v) :: cells =>
    p = some r ∧ ∃ next, nodes r = some ⟨v, next⟩ ∧ Linked nodes next cells

namespace Linked

variable {nodes : ν → Option (Node ν α)} {p : Option ν} {cells rest : List (ν × α)} {r t : ν}
  {v w : α}

theorem nil_iff : Linked nodes none cells ↔ cells = [] := by
  cases cells with
  | nil => exact ⟨fun _ => rfl, fun _ => rfl⟩
  | cons c cells => exact ⟨fun h => (by cases h.1), fun h => (by cases h)⟩

/-- The last cell points nowhere. -/
theorem last (h : Linked nodes p (cells ++ [(t, v)])) : nodes t = some ⟨v, none⟩ := by
  induction cells generalizing p with
  | nil =>
    obtain ⟨_, next, hc, hnext⟩ := h
    rw [hc, show next = none from hnext]
  | cons c cells ih =>
    obtain ⟨_, next, _, hrest⟩ := h
    exact ih hrest

theorem isSome_of_mem (h : Linked nodes p cells) (hr : r ∈ cells.map Prod.fst) :
    (nodes r).isSome := by
  induction cells generalizing p with
  | nil => cases hr
  | cons c cells ih =>
    obtain ⟨_, next, hc, hrest⟩ := h
    rcases List.mem_cons.mp hr with rfl | hr
    · rw [hc]
      rfl
    · exact ih hrest hr

theorem notMem_of_none (h : Linked nodes p cells) (hr : nodes r = none) :
    r ∉ cells.map Prod.fst := by
  intro hmem
  have hsome := h.isSome_of_mem hmem
  rw [hr] at hsome
  cases hsome

/-- Every cell is there, with a pointer to the rest. -/
theorem cell_at (h : Linked nodes p (cells ++ (t, v) :: rest)) :
    ∃ next, nodes t = some ⟨v, next⟩ ∧ Linked nodes next rest := by
  induction cells generalizing p with
  | nil =>
    obtain ⟨_, next, hc, hrest⟩ := h
    exact ⟨next, hc, hrest⟩
  | cons c cells ih =>
    obtain ⟨_, _, _, hrest⟩ := h
    exact ih hrest

variable [DecidableEq ν]

theorem update {x : Option (Node ν α)} (h : Linked nodes p cells)
    (hr : r ∉ cells.map Prod.fst) : Linked (Function.update nodes r x) p cells := by
  induction cells generalizing p with
  | nil => exact h
  | cons c cells ih =>
    obtain ⟨hp, next, hc, hrest⟩ := h
    rw [List.map_cons, List.mem_cons, not_or] at hr
    refine ⟨hp, next, ?_, ih hrest hr.2⟩
    rw [Function.update_of_ne (Ne.symm hr.1)]
    exact hc

/-- The new cell `r` hangs behind the last cell `t`. -/
theorem append (h : Linked nodes p (cells ++ [(t, v)]))
    (hnodup : ((cells ++ [(t, v)]).map Prod.fst).Nodup) (hr : nodes r = some ⟨w, none⟩)
    (hfresh : r ∉ (cells ++ [(t, v)]).map Prod.fst) :
    Linked (Function.update nodes t (some ⟨v, some r⟩)) p (cells ++ [(t, v), (r, w)]) := by
  induction cells generalizing p with
  | nil =>
    obtain ⟨hp, _⟩ := h
    have hrt : r ≠ t := fun e => hfresh (List.mem_singleton.mpr e)
    refine ⟨hp, some r, Function.update_self _ _ _, rfl, none, ?_, rfl⟩
    rw [Function.update_of_ne hrt]
    exact hr
  | cons c cells ih =>
    obtain ⟨hp, next, hc, hrest⟩ := h
    rw [List.cons_append, List.map_cons, List.nodup_cons] at hnodup
    rw [List.cons_append, List.map_cons, List.mem_cons, not_or] at hfresh
    have hmem : t ∈ (cells ++ [(t, v)]).map Prod.fst :=
      List.mem_map.mpr ⟨(t, v), List.mem_append_right _ List.mem_cons_self, rfl⟩
    have hct : c.1 ≠ t := fun e => hnodup.1 (e ▸ hmem)
    refine ⟨hp, next, ?_, ih hrest hnodup.2 hfresh.2⟩
    rw [Function.update_of_ne hct]
    exact hc

/-- The cell `t` gets another value, and behind it another list that it is not a cell of. -/
theorem relink {q : Option ν} {rest' : List (ν × α)} (h : Linked nodes p (cells ++ (t, v) :: rest))
    (hnodup : ((cells ++ (t, v) :: rest).map Prod.fst).Nodup) (hq : Linked nodes q rest')
    (ht : t ∉ rest'.map Prod.fst) :
    Linked (Function.update nodes t (some ⟨w, q⟩)) p (cells ++ (t, w) :: rest') := by
  induction cells generalizing p with
  | nil =>
    obtain ⟨hp, _⟩ := h
    exact ⟨hp, q, Function.update_self _ _ _, hq.update ht⟩
  | cons c cells ih =>
    obtain ⟨hp, next, hc, hrest⟩ := h
    rw [List.cons_append, List.map_cons, List.nodup_cons] at hnodup
    have hmem : t ∈ (cells ++ (t, v) :: rest).map Prod.fst :=
      List.mem_map.mpr ⟨(t, v), List.mem_append_right _ List.mem_cons_self, rfl⟩
    have hct : c.1 ≠ t := fun e => hnodup.1 (e ▸ hmem)
    refine ⟨hp, next, ?_, ih hrest hnodup.2⟩
    rw [Function.update_of_ne hct]
    exact hc

end Linked

/-! ## A pointer to a link -/

/-- Where a pointer to a cell stands: in front of the list, or in a cell. -/
inductive Link (ν : Type*)
  | head
  | next (r : ν)

/-- A list and the memory it lies in, with the address of its first cell. -/
structure LinkedHeap (ν α : Type*) where
  head : Option ν
  nodes : ν → Option (Node ν α)

namespace LinkedHeap

/-- `*pp` -/
def load (h : LinkedHeap ν α) : Link ν → Option ν
  | .head => h.head
  | .next r => (h.nodes r).bind Node.next

variable [DecidableEq ν]

/-- `*pp = p` -/
def store (h : LinkedHeap ν α) : Link ν → Option ν → LinkedHeap ν α
  | .head, p => { h with head := p }
  | .next r, p =>
    { h with nodes := Function.update h.nodes r ((h.nodes r).map fun n => { n with next := p }) }

def free (h : LinkedHeap ν α) (r : ν) : LinkedHeap ν α :=
  { h with nodes := Function.update h.nodes r none }

/-- The list has these cells in this order, and no address stands for two of them. -/
structure Holds (h : LinkedHeap ν α) (cells : List (ν × α)) : Prop where
  linked : Linked h.nodes h.head cells
  nodup : (cells.map Prod.fst).Nodup

/-- The link behind the cells. -/
def linkBehind (cells : List (ν × α)) : Link ν :=
  match cells.getLast? with
  | none => .head
  | some c => .next c.1

omit [DecidableEq ν] in
theorem linkBehind_concat (cells : List (ν × α)) (c : ν × α) :
    linkBehind (cells ++ [c]) = .next c.1 := by
  rw [linkBehind, List.getLast?_concat]

/-- A store through the link behind some cells changes none but these. -/
theorem store_nodes (h : LinkedHeap ν α) (p : Option ν) {front : List (ν × α)} {r : ν}
    (hr : r ∉ front.map Prod.fst) : (h.store (linkBehind front) p).nodes r = h.nodes r := by
  rcases List.eq_nil_or_concat' front with rfl | ⟨cells, c, rfl⟩
  · rfl
  · have hne : r ≠ c.1 := by
      rintro rfl
      exact hr (List.mem_map_of_mem (List.mem_append_right _ List.mem_cons_self))
    rw [linkBehind_concat]
    exact Function.update_of_ne hne _ _

namespace Holds

variable {h : LinkedHeap ν α} {front rest : List (ν × α)} {r : ν} {v : α} {next : Option ν}

omit [DecidableEq ν] in
/-- A link points to the cells that are not in front of it. -/
theorem load (hl : h.Holds (front ++ rest)) :
    Linked h.nodes (h.load (linkBehind front)) rest := by
  rcases List.eq_nil_or_concat' front with rfl | ⟨cells, ⟨t, w⟩, rfl⟩
  · exact hl.linked
  · have hlinked := hl.linked
    rw [List.append_assoc, List.singleton_append] at hlinked
    obtain ⟨next, hcell, hnext⟩ := hlinked.cell_at
    rw [linkBehind_concat, LinkedHeap.load, hcell]
    exact hnext

/-- Storing through the link in front of a cell takes the cell out of the list. -/
theorem unlink (hl : h.Holds (front ++ (r, v) :: rest)) (hr : h.nodes r = some ⟨v, next⟩) :
    (h.store (linkBehind front) next).Holds (front ++ rest) := by
  have hsub : (front ++ rest).Sublist (front ++ (r, v) :: rest) :=
    List.Sublist.append_left (List.sublist_cons_self _ _) front
  refine ⟨?_, hl.nodup.sublist (hsub.map Prod.fst)⟩
  obtain ⟨next', hcell, hnext⟩ := hl.linked.cell_at
  cases hr.symm.trans hcell
  rcases List.eq_nil_or_concat' front with rfl | ⟨cells, ⟨t, w⟩, rfl⟩
  · exact hnext
  · have hlinked := hl.linked
    have hnodup := hl.nodup
    rw [List.append_assoc, List.singleton_append] at hlinked hnodup
    obtain ⟨_, ht, _⟩ := hlinked.cell_at
    have hnot : t ∉ rest.map Prod.fst := by
      rw [List.map_append, List.nodup_append] at hnodup
      have htail := (List.nodup_cons.mp hnodup.2.1).1
      exact fun hmem => htail (List.mem_cons_of_mem _ hmem)
    rw [linkBehind_concat, store, ht, List.append_assoc, List.singleton_append]
    exact hlinked.relink hnodup hnext hnot

omit [DecidableEq ν] in
/-- The address of a cell is that of no other. -/
theorem notMem_of_middle (hl : h.Holds (front ++ (r, v) :: rest)) :
    r ∉ (front ++ rest).map Prod.fst := by
  have hnodup := hl.nodup
  rw [List.map_append, List.map_cons, List.nodup_middle, ← List.map_append] at hnodup
  exact (List.nodup_cons.mp hnodup).1

theorem free (hl : h.Holds front) (hr : r ∉ front.map Prod.fst) : (h.free r).Holds front :=
  ⟨hl.linked.update hr, hl.nodup⟩

/-- A cell gets another value. -/
theorem setVal {w : α} (hl : h.Holds (front ++ (r, v) :: rest)) (hr : h.nodes r = some ⟨v, next⟩) :
    Holds { h with nodes := Function.update h.nodes r (some ⟨w, next⟩) }
      (front ++ (r, w) :: rest) := by
  obtain ⟨next', hcell, hnext⟩ := hl.linked.cell_at
  cases hr.symm.trans hcell
  have hnot : r ∉ rest.map Prod.fst := by
    have hmiddle := hl.notMem_of_middle
    rw [List.map_append, List.mem_append, not_or] at hmiddle
    exact hmiddle.2
  have hnodup := hl.nodup
  refine ⟨hl.linked.relink hnodup hnext hnot, ?_⟩
  rw [List.map_append, List.map_cons] at hnodup ⊢
  exact hnodup

end Holds

end LinkedHeap

end TelemetryTestbed.Lib

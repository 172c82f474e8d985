import Mathlib.Algebra.Order.Ring.Nat
import Mathlib.Data.List.Sort
import TelemetryTestbed.Lib.Dict

/-!
# Grouping

A list is grouped by a key into a dictionary of lists: every element is appended to the
list of its key. The groups are the elements of each key in their order (`mem_group`), and
they are a partition: together they are as many as the elements (`sum_length_group`).
Sorted by their keys they come strictly ordered, and no order of the elements changes which
keys come (`sortedKeys_perm`).

The rank by which the keys are sorted is any injective map into a linear order, so the keys
themselves need no order of their own; two of them with one rank would come in an order that
depends on the input. Within a group the elements keep the order of the list.
-/

namespace TelemetryTestbed.Lib

namespace Dict

variable {κ ν α : Type} [DecidableEq κ]

theorem keys_set (d : Dict κ ν) (k : κ) (v : ν) : (d.set k v).map Prod.fst =
    if k ∈ d.map Prod.fst then d.map Prod.fst else d.map Prod.fst ++ [k] := by
  induction d with
  | nil => rfl
  | cons item d ih =>
    rw [set]
    by_cases hitem : item.1 = k
    · simp [hitem]
    · have hcons : k ∈ (item :: d).map Prod.fst ↔ k ∈ d.map Prod.fst := by
        rw [List.map_cons, List.mem_cons, or_iff_right (Ne.symm hitem)]
      rw [if_neg hitem, List.map_cons, ih]
      by_cases hk : k ∈ d.map Prod.fst
      · rw [if_pos hk, if_pos (hcons.mpr hk), List.map_cons]
      · rw [if_neg hk, if_neg (mt hcons.mp hk), List.map_cons, List.cons_append]

theorem get?_cons (item : κ × ν) (d : Dict κ ν) (k : κ) :
    get? (item :: d) k = if item.1 = k then some item.2 else get? d k := by
  rw [get?, List.find?_cons]
  by_cases hitem : item.1 = k
  · simp [hitem]
  · simp [hitem, get?]

theorem get?_set (d : Dict κ ν) (k k' : κ) (v : ν) :
    (d.set k v).get? k' = if k = k' then some v else d.get? k' := by
  induction d with
  | nil => rw [set, get?_cons]
  | cons item d ih =>
    rw [set]
    split
    next hitem =>
      rw [get?_cons, get?_cons, hitem]
      by_cases hk : k = k'
      · simp [hk]
      · simp [hk]
    next hitem =>
      rw [get?_cons, get?_cons, ih]
      by_cases hk : k = k'
      · subst hk
        simp [hitem]
      · simp [hk]

/-- With different keys every item is found. -/
theorem get?_of_mem_nodup {d : Dict κ ν} {k : κ} {v : ν} (h : (d.map Prod.fst).Nodup)
    (hmem : (k, v) ∈ d) : d.get? k = some v := by
  induction d with
  | nil => cases hmem
  | cons item d ih =>
    rw [List.map_cons, List.nodup_cons] at h
    rw [get?_cons]
    rcases List.mem_cons.mp hmem with rfl | hmem
    · rw [if_pos rfl]
    · have hne : item.1 ≠ k := fun hkey => h.1 (hkey ▸ List.mem_map_of_mem hmem)
      rw [if_neg hne, ih h.2 hmem]

/-- `defaultdict(list)`, every element appended to the list of its key. -/
def group (key : α → κ) (l : List α) : Dict κ (List α) :=
  l.foldl (fun d a => d.set (key a) ((d.get? (key a)).getD [] ++ [a])) []

variable {key : α → κ} {l l' : List α}

theorem group_concat (key : α → κ) (l : List α) (a : α) :
    group key (l ++ [a]) =
      (group key l).set (key a) (((group key l).get? (key a)).getD [] ++ [a]) := by
  rw [group, List.foldl_append]
  rfl

theorem group_keys (key : α → κ) (l : List α) :
    ((group key l).map Prod.fst).Nodup ∧ ∀ k, k ∈ (group key l).map Prod.fst ↔ k ∈ l.map key := by
  induction l using List.reverseRecOn with
  | nil => exact ⟨List.nodup_nil, fun k => Iff.rfl⟩
  | append_singleton l a ih =>
    obtain ⟨hnodup, hmem⟩ := ih
    rw [group_concat, keys_set]
    split
    next hkey =>
      refine ⟨hnodup, fun k => ?_⟩
      rw [hmem, List.map_append, List.mem_append, List.map_singleton, List.mem_singleton]
      refine ⟨Or.inl, ?_⟩
      rintro (hk | rfl)
      · exact hk
      · exact (hmem _).mp hkey
    next hkey =>
      refine ⟨List.nodup_append.mpr ⟨hnodup, List.nodup_singleton _, ?_⟩, fun k => ?_⟩
      · rintro k hk _ hk' rfl
        rw [List.mem_singleton.mp hk'] at hk
        exact hkey hk
      · rw [List.mem_append, hmem, List.map_append, List.mem_append, List.map_singleton]

theorem get?_group (key : α → κ) (l : List α) (k : κ) :
    ((group key l).get? k).getD [] = l.filter fun a => key a = k := by
  induction l using List.reverseRecOn with
  | nil => rfl
  | append_singleton l a ih =>
    rw [group_concat, get?_set, List.filter_append, List.filter_singleton]
    by_cases hk : key a = k
    · simp [hk, ih]
    · simp [hk, ih]

/-- The group of a key has the elements of that key, in their order. -/
theorem mem_group {k : κ} {g : List α} :
    (k, g) ∈ group key l ↔ k ∈ l.map key ∧ g = l.filter fun a => key a = k := by
  obtain ⟨hnodup, hmem⟩ := group_keys key l
  constructor
  · intro h
    refine ⟨(hmem k).mp (List.mem_map_of_mem h), ?_⟩
    rw [← get?_group, get?_of_mem_nodup hnodup h, Option.getD_some]
  · rintro ⟨hk, rfl⟩
    obtain ⟨item, hitem, rfl⟩ := List.mem_map.mp ((hmem k).mpr hk)
    rw [← get?_group, get?_of_mem_nodup hnodup hitem, Option.getD_some]
    exact hitem

theorem sum_length_push (d : Dict κ (List α)) (k : κ) (a : α) :
    ((d.set k ((d.get? k).getD [] ++ [a])).map fun item => item.2.length).sum =
      (d.map fun item => item.2.length).sum + 1 := by
  induction d with
  | nil => rfl
  | cons item d ih =>
    rw [get?_cons, set]
    by_cases hitem : item.1 = k
    · simp [hitem]
      omega
    · rw [if_neg hitem, if_neg hitem, List.map_cons, List.sum_cons, ih, List.map_cons,
        List.sum_cons, Nat.add_assoc]

/-- Every element is in one group. -/
theorem sum_length_group (key : α → κ) (l : List α) :
    ((group key l).map fun item => item.2.length).sum = l.length := by
  induction l using List.reverseRecOn with
  | nil => rfl
  | append_singleton l a ih => rw [group_concat, sum_length_push, ih, List.length_append]; rfl

/-! ## Sorted by the key -/

section Sorted

variable {R : Type} [LinearOrder R] {rank : κ → R}

/-- The keys of the groups in the order of their ranks. -/
def sortedKeys (rank : κ → R) (key : α → κ) (l : List α) : List κ :=
  ((group key l).map Prod.fst).insertionSort fun k k' => rank k ≤ rank k'

theorem mem_sortedKeys {k : κ} : k ∈ sortedKeys rank key l ↔ k ∈ l.map key := by
  rw [sortedKeys, List.mem_insertionSort]
  exact (group_keys key l).2 k

theorem sortedKeys_nodup : (sortedKeys rank key l).Nodup :=
  (List.perm_insertionSort _ _).nodup_iff.mpr (group_keys key l).1

theorem sortedKeys_ordered : (sortedKeys rank key l).Pairwise fun k k' => rank k ≤ rank k' := by
  have : Std.Total fun k k' : κ => rank k ≤ rank k' := ⟨fun _ _ => le_total _ _⟩
  have : IsTrans κ fun k k' => rank k ≤ rank k' := ⟨fun _ _ _ => le_trans⟩
  exact List.pairwise_insertionSort _ _

theorem sortedKeys_strict (hrank : rank.Injective) :
    (sortedKeys rank key l).Pairwise fun k k' => rank k < rank k' := by
  refine (sortedKeys_ordered.and sortedKeys_nodup).imp fun h => ?_
  exact lt_of_le_of_ne h.1 (hrank.ne h.2)

/-- The sorted groups are the sorted keys, each with its elements. -/
theorem insertionSort_group (rank : κ → R) (key : α → κ) (l : List α) :
    ((group key l).insertionSort fun x y => rank x.1 ≤ rank y.1) =
      (sortedKeys rank key l).map fun k => (k, l.filter fun a => key a = k) := by
  have hkeys : (((group key l).insertionSort fun x y => rank x.1 ≤ rank y.1).map Prod.fst) =
      sortedKeys rank key l := List.map_insertionSort _ _ _ _ fun _ _ _ _ => Iff.rfl
  rw [← hkeys, List.map_map]
  refine (List.map_id _).symm.trans (List.map_congr_left fun item hitem => ?_)
  have hmem := (List.perm_insertionSort _ _).mem_iff.mp hitem
  exact Prod.ext rfl (mem_group.mp hmem).2

/-- Neither the keys nor their order depend on the order of the elements. -/
theorem sortedKeys_perm (hrank : rank.Injective) (h : l.Perm l') :
    sortedKeys rank key l = sortedKeys rank key l' := by
  refine List.Perm.eq_of_pairwise (fun _ _ _ _ hle hge => hrank (le_antisymm hle hge))
    sortedKeys_ordered sortedKeys_ordered ?_
  refine (List.perm_ext_iff_of_nodup sortedKeys_nodup sortedKeys_nodup).mpr fun k => ?_
  rw [mem_sortedKeys, mem_sortedKeys]
  exact (h.map key).mem_iff

end Sorted

end Dict

end TelemetryTestbed.Lib

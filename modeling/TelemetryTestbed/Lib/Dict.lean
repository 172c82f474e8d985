import Mathlib.Data.List.Induction

/-!
# Insertion-ordered dictionaries

A dictionary as Python keeps it: its items in the order their keys came in first. A
dictionary built from items that agree on every key's value is searched as the list of
these items is (`find?_ofItems`).

Setting a key that is there already changes its value in place, and a new key goes to the end,
so the order of the items is part of the value. `get?` is `dict.get`, `ofItems` is the
constructor from pairs, and `update` the method; two keys that are equal are the same key.
-/

namespace TelemetryTestbed.Lib

abbrev Dict (κ ν : Type) := List (κ × ν)

namespace Dict

variable {κ ν : Type} [DecidableEq κ] {d items : Dict κ ν} {k : κ} {v : ν}

/-- `d[k]`, if the key is there. -/
def get? (d : Dict κ ν) (k : κ) : Option ν := (d.find? fun item => item.1 = k).map Prod.snd

/-- `d[k] = v`: a key that is there keeps its place. -/
def set (d : Dict κ ν) (k : κ) (v : ν) : Dict κ ν :=
  match d with
  | [] => [(k, v)]
  | item :: d => if item.1 = k then (k, v) :: d else item :: set d k v

/-- `d.update(items)` -/
def update (d items : Dict κ ν) : Dict κ ν := items.foldl (fun d item => d.set item.1 item.2) d

/-- The assignments one after the other. -/
def ofItems (items : List (κ × ν)) : Dict κ ν := items.foldl (fun d item => d.set item.1 item.2) []

theorem set_of_notMem (h : ∀ item ∈ d, item.1 ≠ k) : d.set k v = d ++ [(k, v)] := by
  induction d with
  | nil => rfl
  | cons item d ih =>
    have htail := ih fun i hi => h i (List.mem_cons_of_mem item hi)
    rw [set, if_neg (h item List.mem_cons_self), htail]
    rfl

/-- To give a key the value it has changes nothing. -/
theorem set_of_mem (h : (k, v) ∈ d) (hk : ∀ item ∈ d, item.1 = k → item.2 = v) :
    d.set k v = d := by
  induction d with
  | nil => cases h
  | cons item d ih =>
    by_cases hitem : item.1 = k
    · have hv := hk item List.mem_cons_self hitem
      subst hitem hv
      rw [set, if_pos rfl]
    · have htail : (k, v) ∈ d := by
        rcases List.mem_cons.mp h with rfl | h
        · exact absurd rfl hitem
        · exact h
      rw [set, if_neg hitem, ih htail fun i hi => hk i (List.mem_cons_of_mem item hi)]

theorem ofItems_concat (items : List (κ × ν)) (k : κ) (v : ν) :
    ofItems (items ++ [(k, v)]) = (ofItems items).set k v := by
  rw [ofItems, List.foldl_append]
  rfl

/-- Items with different keys are a dictionary as they stand. -/
theorem ofItems_of_nodup (h : (items.map Prod.fst).Nodup) : ofItems items = items := by
  induction items using List.reverseRecOn with
  | nil => rfl
  | append_singleton items item ih =>
    rw [List.map_append, List.nodup_append] at h
    obtain ⟨hitems, -, hdisjoint⟩ := h
    rw [ofItems_concat, ih hitems]
    exact set_of_notMem fun i hi =>
      hdisjoint i.1 (List.mem_map_of_mem hi) item.1 (List.mem_singleton_self _)

/-- A key that is there has a value. -/
theorem get?_ne_none (h : k ∈ d.map Prod.fst) : d.get? k ≠ none := by
  obtain ⟨item, hitem, rfl⟩ := List.mem_map.mp h
  rw [get?, ne_eq, Option.map_eq_none_iff, List.find?_eq_none]
  intro hnone
  exact hnone item hitem (decide_eq_true rfl)

/-- To give a key a value removes none. -/
theorem mem_keys_set {k' : κ} (h : k ∈ d.map Prod.fst) : k ∈ (d.set k' v).map Prod.fst := by
  induction d with
  | nil => cases h
  | cons item d ih =>
    rw [List.map_cons, List.mem_cons] at h
    rw [set]
    split
    next hitem => simpa [hitem] using h
    next => simpa using h.imp_right fun h => by simpa using ih h

/-- Items that agree on the value of every key. -/
def Agree (items : List (κ × ν)) : Prop :=
  ∀ i ∈ items, ∀ j ∈ items, i.1 = j.1 → i.2 = j.2

omit [DecidableEq κ] in
theorem Agree.front {front back : List (κ × ν)} (h : Agree (front ++ back)) : Agree front :=
  fun i hi j hj => h i (List.mem_append_left back hi) j (List.mem_append_left back hj)

/-- The first item of a kind is the first one that was assigned. -/
theorem find?_ofItems (h : Agree items) (p : κ × ν → Bool) :
    (ofItems items).find? p = items.find? p ∧ ∀ item, item ∈ ofItems items ↔ item ∈ items := by
  induction items using List.reverseRecOn with
  | nil => exact ⟨rfl, fun _ => Iff.rfl⟩
  | append_singleton items item ih =>
    obtain ⟨hfind, hmem⟩ := ih h.front
    obtain ⟨k, v⟩ := item
    have hlast : (k, v) ∈ items ++ [(k, v)] := List.mem_append_right items List.mem_cons_self
    rw [ofItems_concat]
    by_cases hk : ∃ i ∈ items, i.1 = k
    · -- the key is there, and by agreement with this value
      obtain ⟨i, hi, rfl⟩ := hk
      have hv : i.2 = v := h i (List.mem_append_left _ hi) _ hlast rfl
      subst hv
      have hsame : (ofItems items).set i.1 i.2 = ofItems items := by
        apply set_of_mem ((hmem i).mpr hi)
        intro j hj hkey
        exact h j (List.mem_append_left _ ((hmem j).mp hj)) _ hlast hkey
      rw [hsame]
      constructor
      · rw [hfind, List.find?_append]
        cases hfound : items.find? p with
        | some j => rw [Option.some_or]
        | none =>
          have hp := List.find?_eq_none.mp hfound i hi
          rw [Option.none_or, List.find?_cons_of_neg hp, List.find?_nil]
      · intro j
        rw [hmem, List.mem_append, List.mem_singleton]
        refine ⟨Or.inl, ?_⟩
        rintro (hj | rfl)
        · exact hj
        · exact hi
    · have hnew : (ofItems items).set k v = ofItems items ++ [(k, v)] := by
        apply set_of_notMem
        intro i hi hkey
        exact hk ⟨i, (hmem i).mp hi, hkey⟩
      rw [hnew]
      constructor
      · rw [List.find?_append, List.find?_append, hfind]
      · intro j
        rw [List.mem_append, List.mem_append, hmem]

theorem get?_ofItems (h : Agree items) (k : κ) :
    (ofItems items).get? k = (items.find? fun item => item.1 = k).map Prod.snd := by
  rw [get?, (find?_ofItems h _).1]

theorem get?_of_mem (h : Agree items) (hmem : (k, v) ∈ items) : (ofItems items).get? k = some v := by
  rw [get?_ofItems h]
  cases hfound : items.find? fun item => item.1 = k with
  | none =>
    have hnone := List.find?_eq_none.mp hfound (k, v) hmem
    exact absurd (decide_eq_true rfl) hnone
  | some item =>
    have hp := List.find?_some hfound
    have hkey : item.1 = k := of_decide_eq_true hp
    rw [Option.map_some, h item (List.mem_of_find?_eq_some hfound) (k, v) hmem hkey]

end Dict

end TelemetryTestbed.Lib

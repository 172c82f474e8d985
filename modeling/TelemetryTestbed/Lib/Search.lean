import Mathlib.Data.List.Infix
import TelemetryTestbed.Lib.Bytes

/-!
# Searching a string

What `strstr` and `strchr` find: the rest of the string from the first occurrence on.
An occurrence is the first one when no shorter front leaves the needle at the start
of what is behind it (`strstr_of_first`).

A search answers a suffix, so the position is the length of what stands in front of it, and
two searches can be composed: the second one goes on in the answer of the first. The lemmas on
infixes say which bytes a program sees that looks for one word behind another.
-/

namespace TelemetryTestbed.Lib

/-! ## `strstr` -/

/-- What is found is the rest of the string from the needle on. -/
theorem strstr_split {s needle p : Bytes} (h : strstr s needle = some p) :
    needle <+: p ∧ ∃ front, s = front ++ p := by
  induction s with
  | nil =>
    simp only [strstr] at h
    split at h
    · next hn =>
      cases h
      exact ⟨hn ▸ List.prefix_rfl, [], rfl⟩
    · cases h
  | cons b s ih =>
    simp only [strstr] at h
    split at h
    · next hn =>
      cases h
      exact ⟨List.isPrefixOf_iff_prefix.mp hn, [], rfl⟩
    · obtain ⟨hpre, front, rfl⟩ := ih h
      exact ⟨hpre, b :: front, rfl⟩

/-- The first occurrence stays the first one when the string goes on. -/
theorem strstr_append {s needle p : Bytes} (h : strstr s needle = some p) (x : Bytes) :
    strstr (s ++ x) needle = some (p ++ x) := by
  induction s with
  | nil =>
    simp only [strstr] at h
    split at h
    · next hn =>
      cases h
      subst hn
      cases x <;> rfl
    · cases h
  | cons b s ih =>
    obtain ⟨hpre, front, hs⟩ := strstr_split h
    simp only [strstr] at h
    rw [List.cons_append, strstr]
    split at h
    · next hn =>
      cases h
      have hx : needle.isPrefixOf (b :: (s ++ x)) = true :=
        List.isPrefixOf_iff_prefix.mpr
          ((List.isPrefixOf_iff_prefix.mp hn).trans (List.prefix_append (b :: s) x))
      rw [if_pos hx]
      rfl
    · next hn =>
      have hlen : needle.length ≤ (b :: s).length := by
        rw [hs, List.length_append]
        exact Nat.le_trans hpre.length_le (Nat.le_add_left _ _)
      have hx : ¬ needle.isPrefixOf (b :: (s ++ x)) = true := by
        intro hx
        apply hn
        rw [List.isPrefixOf_iff_prefix] at hx ⊢
        exact List.prefix_of_prefix_length_le hx (List.prefix_append (b :: s) x) hlen
      rw [if_neg hx]
      exact ih h

theorem isSome_strstr_of_prefix {s t needle : Bytes} (h : s <+: t)
    (hs : (strstr s needle).isSome) : (strstr t needle).isSome := by
  obtain ⟨x, rfl⟩ := h
  obtain ⟨p, hp⟩ := Option.isSome_iff_exists.mp hs
  rw [strstr_append hp x]
  rfl

/-- A string that contains the needle is found to contain it. -/
theorem isSome_strstr_append (front needle back : Bytes) :
    (strstr (front ++ needle ++ back) needle).isSome := by
  induction front with
  | nil =>
    have hpre : needle.isPrefixOf (needle ++ back) = true :=
      List.isPrefixOf_iff_prefix.mpr (List.prefix_append needle back)
    cases hs : needle ++ back with
    | nil =>
      obtain ⟨rfl, rfl⟩ := List.append_eq_nil_iff.mp hs
      rfl
    | cons b s =>
      rw [hs] at hpre
      simp [strstr, hs, hpre]
  | cons b front ih =>
    simp only [List.cons_append, strstr]
    split
    · rfl
    · exact ih

theorem isSome_strstr_iff {s needle : Bytes} : (strstr s needle).isSome ↔ needle <:+: s := by
  constructor
  · intro h
    obtain ⟨p, hp⟩ := Option.isSome_iff_exists.mp h
    obtain ⟨⟨back, hback⟩, front, hfront⟩ := strstr_split hp
    exact ⟨front, back, by rw [hfront, ← hback, List.append_assoc]⟩
  · rintro ⟨front, back, rfl⟩
    exact isSome_strstr_append front needle back

/-- The occurrence behind which no front is shorter is the one that is found. -/
theorem strstr_of_first {front p needle : Bytes} (hp : needle <+: p)
    (hfirst : ∀ f b, front ++ p = f ++ b → needle <+: b → front.length ≤ f.length) :
    strstr (front ++ p) needle = some p := by
  induction front with
  | nil =>
    cases p with
    | nil =>
      obtain rfl := List.prefix_nil.mp hp
      rfl
    | cons b p =>
      rw [List.nil_append, strstr, if_pos (List.isPrefixOf_iff_prefix.mpr hp)]
  | cons c front ih =>
    have hnot : ¬ needle.isPrefixOf (c :: (front ++ p)) = true := by
      intro h
      have hle := hfirst [] _ rfl (List.isPrefixOf_iff_prefix.mp h)
      rw [List.length_nil, List.length_cons] at hle
      omega
    rw [List.cons_append, strstr, if_neg hnot]
    apply ih
    intro f b hfb hb
    have hle := hfirst (c :: f) b (by rw [List.cons_append, hfb, List.cons_append]) hb
    exact Nat.le_of_succ_le_succ hle

theorem strstr_at_front {s needle : Bytes} (h : needle <+: s) : strstr s needle = some s := by
  have := @strstr_of_first [] s needle h fun _ _ _ _ => Nat.zero_le _
  rwa [List.nil_append] at this

theorem strstr_cons {b : UInt8} {s needle : Bytes} (h : ¬ needle <+: b :: s) :
    strstr (b :: s) needle = strstr s needle := by
  rw [strstr, if_neg (mt List.isPrefixOf_iff_prefix.mp h)]

/-- Where the needle cannot start, the search goes on. -/
theorem strstr_skip {s t needle : Bytes}
    (h : ∀ front back, s = front ++ back → back ≠ [] → ¬ needle <+: back ++ t) :
    strstr (s ++ t) needle = strstr t needle := by
  induction s with
  | nil => rw [List.nil_append]
  | cons b s ih =>
    have hnot : ¬ needle <+: b :: (s ++ t) := h [] (b :: s) rfl (List.cons_ne_nil b s)
    rw [List.cons_append, strstr_cons hnot]
    apply ih
    rintro front back rfl
    exact h (b :: front) back rfl

/-- Every other occurrence is behind the start of the first one. -/
theorem suffix_of_strstr {s needle p b : Bytes} (hp : strstr s needle = some p)
    (hb : needle <+: b) (hs : b <:+ s) : b <:+ p := by
  induction s with
  | nil =>
    obtain rfl := List.suffix_nil.mp hs
    exact List.nil_suffix
  | cons a s ih =>
    rw [strstr] at hp
    split at hp
    · cases hp
      exact hs
    · next hnot =>
      rcases List.suffix_cons_iff.mp hs with rfl | hs
      · exact absurd (List.isPrefixOf_iff_prefix.mpr hb) hnot
      · exact ih hp hs

/-- The second word stands in the text, behind the first. -/
def InOrder (u v s : Bytes) : Prop := ∃ x y z, s = x ++ (u ++ (y ++ (v ++ z)))

/-- A word whose first byte is not in front does not start there. -/
theorem infix_of_infix_append {b : UInt8} {u v t : Bytes} (hb : b ∉ u)
    (h : b :: v <:+: u ++ t) : b :: v <:+: t := by
  induction u with
  | nil => exact h
  | cons a u ih =>
    rw [List.mem_cons, not_or] at hb
    rcases List.infix_cons_iff.mp h with hpre | hin
    · exact absurd (List.cons_prefix_cons.mp hpre).1 hb.1
    · exact ih hb.2 hin

/-- A word behind the first occurrence of another. -/
theorem infix_strstr_iff {s u v p : Bytes} {b : UInt8} (hp : strstr s u = some p) (hb : b ∉ u) :
    b :: v <:+: p ↔ InOrder u (b :: v) s := by
  obtain ⟨⟨t, rfl⟩, front, hfront⟩ := strstr_split hp
  constructor
  · intro h
    obtain ⟨y, z, rfl⟩ := infix_of_infix_append hb h
    exact ⟨front, y, z, by rw [hfront, List.append_assoc y _ z]⟩
  · rintro ⟨x, y, z, hs⟩
    have hsuffix : u ++ (y ++ (b :: v ++ z)) <:+ u ++ t :=
      suffix_of_strstr hp (List.prefix_append _ _) ⟨x, hs.symm⟩
    have hin : b :: v <:+: u ++ (y ++ (b :: v ++ z)) :=
      ⟨u ++ y, z, by simp only [List.append_assoc]⟩
    exact hin.trans hsuffix.isInfix

/-- A word without the separator ends before it. -/
theorem prefix_of_prefix_append_cons {u v w : Bytes} {q : UInt8} (hq : q ∉ w)
    (h : w <+: u ++ q :: v) : w <+: u := by
  induction w generalizing u with
  | nil => exact List.nil_prefix
  | cons b w ih =>
    rw [List.mem_cons, not_or] at hq
    cases u with
    | nil => exact absurd (List.cons_prefix_cons.mp h).1.symm hq.1
    | cons a u =>
      rw [List.cons_append, List.cons_prefix_cons] at h
      exact List.cons_prefix_cons.mpr ⟨h.1, ih hq.2 h.2⟩

/-- A word without the separator stands on one side of it. -/
theorem infix_append_cons_iff {u v w : Bytes} {q : UInt8} (hq : q ∉ w) :
    w <:+: u ++ q :: v ↔ w <:+: u ∨ w <:+: v := by
  constructor
  · intro h
    induction u with
    | nil =>
      rcases List.infix_cons_iff.mp h with hpre | hin
      · exact Or.inl (@prefix_of_prefix_append_cons [] v w q hq hpre).isInfix
      · exact Or.inr hin
    | cons a u ih =>
      rcases List.infix_cons_iff.mp h with hpre | hin
      · exact Or.inl (@prefix_of_prefix_append_cons (a :: u) v w q hq hpre).isInfix
      · exact (ih hin).imp_left List.infix_cons
  · rintro (h | h)
    · exact h.trans (List.prefix_append u _).isInfix
    · exact h.trans ((List.suffix_cons q v).trans (List.suffix_append u _)).isInfix

/-- Two words up to their first separator are compared as words. -/
theorem append_cons_prefix_iff {u v x y : Bytes} {q : UInt8} (hu : q ∉ u) (hv : q ∉ v) :
    u ++ q :: x <+: v ++ q :: y ↔ u = v ∧ x <+: y := by
  induction u generalizing v with
  | nil =>
    cases v with
    | nil => simp only [List.nil_append, List.cons_prefix_cons, true_and]
    | cons b v =>
      have hb : q ≠ b := fun h => hv (h ▸ List.mem_cons_self)
      simp only [List.nil_append, List.cons_append, List.cons_prefix_cons, hb, false_and,
        List.nil_eq, reduceCtorEq]
  | cons a u ih =>
    cases v with
    | nil =>
      have ha : a ≠ q := fun h => hu (h ▸ List.mem_cons_self)
      simp only [List.nil_append, List.cons_append, List.cons_prefix_cons, ha, false_and,
        reduceCtorEq]
    | cons b v =>
      have htail := @ih v (mt (List.mem_cons_of_mem a) hu) (mt (List.mem_cons_of_mem b) hv)
      simp only [List.cons_append, List.cons_prefix_cons, htail, List.cons.injEq, and_assoc]

/-! ## `strchr` -/

theorem strchr_append {s : Bytes} {c : UInt8} (h : c ∉ s) (r : Bytes) :
    strchr (s ++ c :: r) c = some (c :: r) := by
  induction s with
  | nil => rw [List.nil_append, strchr, if_pos rfl]
  | cons b s ih =>
    rw [List.mem_cons, not_or] at h
    rw [List.cons_append, strchr, if_neg (Ne.symm h.1), ih h.2]

end TelemetryTestbed.Lib

import TelemetryTestbed.Lib.Json

/-!
# Texts pasted between quotation marks

A program that writes `"%s"` and does not escape relies on its text being plain:
no quotation mark, no backslash, no control character. A plain text is read back as
it is (`string_plain`), and no other text is (`plain_of_string`): it ends early, or
loses a byte to each escape, or runs on behind its own closing mark.

That a text with an escape is not read back as it is needs a measure: an escape gives fewer
bytes than it is long (`length_itemsBytes_le`), so what is read is shorter than what was
written, or the text has run on past the mark that should have closed it.
-/

namespace TelemetryTestbed.Lib.Json

/-- A byte that stands for itself in a string. -/
def PlainByte (b : UInt8) : Prop := 0x20 ≤ b.toNat ∧ b ≠ 0x22 ∧ b ≠ 0x5C

instance : DecidablePred PlainByte := fun b =>
  inferInstanceAs (Decidable (0x20 ≤ b.toNat ∧ b ≠ 0x22 ∧ b ≠ 0x5C))

def Plain (t : Bytes) : Prop := ∀ b ∈ t, PlainByte b

instance : DecidablePred Plain := fun t => inferInstanceAs (Decidable (∀ b ∈ t, PlainByte b))

/-- No backslash stands before the next quotation mark. -/
def Quiet : Bytes → Prop
  | [] => True
  | b :: r => b = 0x22 ∨ (b ≠ 0x5C ∧ Quiet r)

variable {t r rest : Bytes} {items : List StrItem}

theorem Quiet.cons {b : UInt8} (hb : b ≠ 0x5C) (h : Quiet r) : Quiet (b :: r) := Or.inr ⟨hb, h⟩

theorem Quiet.append (ht : (0x5C : UInt8) ∉ t) (h : Quiet r) : Quiet (t ++ r) := by
  induction t with
  | nil => exact h
  | cons b t ih =>
    rw [List.mem_cons, not_or] at ht
    exact Quiet.cons (Ne.symm ht.1) (ih ht.2)

/-! ## Plain texts -/

theorem stringItems_byte {b : UInt8} (h : PlainByte b) (bs : Bytes) :
    stringItems (b :: bs) = (stringItems bs).map fun (items, rest) => (.byte b :: items, rest) := by
  rw [stringItems.eq_def]
  dsimp only
  rw [if_neg h.2.1, if_neg h.2.2, if_neg (Nat.not_lt.mpr h.1)]

theorem stringItems_quote (bs : Bytes) : stringItems (0x22 :: bs) = some ([], bs) := by
  rw [stringItems.eq_def]
  exact if_pos rfl

theorem stringItems_plain (h : Plain t) (r : Bytes) :
    stringItems (t ++ 0x22 :: r) = some (t.map .byte, r) := by
  induction t with
  | nil => exact stringItems_quote r
  | cons b t ih =>
    rw [List.cons_append, stringItems_byte (h b List.mem_cons_self),
      ih fun x hx => h x (List.mem_cons_of_mem _ hx)]
    rfl

theorem itemsBytes_map_byte (t : Bytes) : itemsBytes (t.map .byte) = t := by
  induction t with
  | nil => rfl
  | cons b t ih => rw [List.map_cons, itemsBytes, ih]

/-- A plain text is read back as it is. -/
theorem string_plain (h : Plain t) (r : Bytes) : string (t ++ 0x22 :: r) = some (t, r) := by
  rw [string, stringItems_plain h]
  exact congrArg (fun t => some (t, r)) (itemsBytes_map_byte t)

/-! ## Other texts -/

/-- The most bytes the items can stand for. -/
def weight : List StrItem → Nat
  | [] => 0
  | .byte _ :: items => weight items + 1
  | .unit _ :: items => weight items + 3

theorem length_codePointBytes_le (v : Nat) : (codePointBytes v).length ≤ 4 := by
  unfold codePointBytes
  split
  · exact Nat.le_of_ble_eq_true rfl
  · split
    · exact Nat.le_of_ble_eq_true rfl
    · split <;> exact Nat.le_of_ble_eq_true rfl

theorem length_codePointBytes_unit (u : UInt16) : (codePointBytes u.toNat).length ≤ 3 := by
  unfold codePointBytes
  split
  · exact Nat.le_of_ble_eq_true rfl
  · split
    · exact Nat.le_of_ble_eq_true rfl
    · rw [if_pos u.toNat_lt]
      exact Nat.le_refl 3

theorem length_itemsBytes_le (items : List StrItem) : (itemsBytes items).length ≤ weight items := by
  fun_induction itemsBytes items with
  | case1 => exact Nat.le_refl 0
  | case2 b items ih =>
    rw [List.length_cons, weight]
    omega
  | case3 u v items c hc ih =>
    have hfour := length_codePointBytes_le c
    rw [List.length_append, weight, weight]
    omega
  | case4 u v items hc ih =>
    have hthree := length_codePointBytes_unit u
    rw [List.length_append, weight]
    omega
  | case5 u items hno ih =>
    have hthree := length_codePointBytes_unit u
    rw [List.length_append, weight]
    omega

theorem itemsBytes_concat (items : List StrItem) (b : UInt8) :
    itemsBytes (items ++ [.byte b]) = itemsBytes items ++ [b] := by
  fun_induction itemsBytes items with
  | case1 => rfl
  | case2 c items ih => rw [List.cons_append, itemsBytes, ih, List.cons_append]
  | case3 u v items c hc ih =>
    simp only [List.cons_append, itemsBytes, hc, ih, List.append_assoc]
  | case4 u v items hc ih =>
    rw [List.cons_append] at ih
    simp only [List.cons_append, itemsBytes, hc, ih, List.append_assoc]
  | case5 u items hno ih =>
    cases items with
    | nil => exact congrArg (· ++ [b]) (List.append_nil (codePointBytes u.toNat)).symm
    | cons item items =>
      cases item with
      | unit v => exact absurd rfl (hno v items)
      | byte c =>
        simp only [List.cons_append, itemsBytes] at ih ⊢
        rw [ih, List.append_assoc, List.cons_append]

/-- The bytes up to a quotation mark before which no backslash stands. -/
theorem stringItems_quiet (h : Quiet r) (hr : stringItems r = some (items, rest)) :
    ∃ t : Bytes, items = t.map .byte ∧ (0x5C : UInt8) ∉ t := by
  induction r generalizing items with
  | nil => cases hr
  | cons b r ih =>
    rw [stringItems.eq_def] at hr
    dsimp only at hr
    split at hr
    next =>
      cases hr
      exact ⟨[], rfl, List.not_mem_nil⟩
    next hquote =>
      obtain ⟨hb, hr'⟩ := h.resolve_left hquote
      rw [if_neg hb] at hr
      split at hr
      next => cases hr
      next =>
        obtain ⟨⟨items', rest'⟩, hitems, heq⟩ := Option.map_eq_some_iff.mp hr
        cases heq
        obtain ⟨t, rfl, ht⟩ := ih hr' hitems
        refine ⟨b :: t, rfl, ?_⟩
        rw [List.mem_cons, not_or]
        exact ⟨Ne.symm hb, ht⟩

/-- What can come of a text pasted before a closing quotation mark: it is plain, or
what is read is shorter, or does not end in the backslash the text ends in. -/
def Outcome (t : Bytes) (items : List StrItem) : Prop :=
  (Plain t ∧ weight items ≤ t.length) ∨ weight items < t.length ∨
    (t.getLast? = some 0x5C ∧ ∃ front b, items = front ++ [.byte b] ∧ b ≠ 0x5C)

/-- An escape stands for less than its own length. -/
theorem Outcome.escape {item : StrItem} (h : Outcome t items) (esc : Bytes)
    (hesc : weight [item] < esc.length) : Outcome (esc ++ t) (item :: items) := by
  have hweight : weight (item :: items) = weight [item] + weight items := by
    cases item <;> simp only [weight] <;> omega
  rcases h with ⟨-, hle⟩ | hlt | ⟨hlast, front, b, rfl, hb⟩
  · refine Or.inr (Or.inl ?_)
    rw [hweight, List.length_append]
    omega
  · refine Or.inr (Or.inl ?_)
    rw [hweight, List.length_append]
    omega
  · refine Or.inr (Or.inr ⟨?_, item :: front, b, rfl, hb⟩)
    rw [List.getLast?_append, hlast]
    rfl

theorem Outcome.byte {b : UInt8} (hb : PlainByte b) (h : Outcome t items) :
    Outcome (b :: t) (.byte b :: items) := by
  rcases h with ⟨hplain, hle⟩ | hlt | ⟨hlast, front, c, rfl, hc⟩
  · refine Or.inl ⟨fun x hx => ?_, Nat.succ_le_succ hle⟩
    rcases List.mem_cons.mp hx with rfl | hx
    · exact hb
    · exact hplain x hx
  · exact Or.inr (Or.inl (Nat.succ_lt_succ hlt))
  · refine Or.inr (Or.inr ⟨?_, .byte b :: front, c, rfl, hc⟩)
    rw [List.getLast?_cons, hlast]
    rfl

/-- The closing mark itself is escaped, and the string runs on. -/
theorem Outcome.past (h : Quiet r) (hr : stringItems r = some (items, rest)) :
    Outcome [0x5C] (.byte 0x22 :: items) := by
  obtain ⟨u, rfl, hu⟩ := stringItems_quiet h hr
  refine Or.inr (Or.inr ⟨rfl, ?_⟩)
  obtain ⟨front, b, hsplit⟩ : ∃ front b, 0x22 :: u = front ++ [b] :=
    ⟨_, _, (List.dropLast_append_getLast (List.cons_ne_nil 0x22 u)).symm⟩
  refine ⟨front.map .byte, b, ?_, ?_⟩
  · rw [← List.map_cons, hsplit, List.map_append, List.map_singleton]
  · rintro rfl
    have hmem : (0x5C : UInt8) ∈ (0x22 : UInt8) :: u := hsplit ▸ List.mem_append_right _ List.mem_cons_self
    rcases List.mem_cons.mp hmem with h | h
    · cases h
    · exact hu h

theorem hex4_ne_quote {h3 h2 h1 h0 : UInt8} {u : UInt16} (h : hex4 h3 h2 h1 h0 = some u) :
    h3 ≠ 0x22 ∧ h2 ≠ 0x22 ∧ h1 ≠ 0x22 ∧ h0 ≠ 0x22 := by
  have hquote : ∀ {b : UInt8} {d : Nat}, hexDigit b = some d → b ≠ 0x22 := by
    rintro b d hd rfl
    cases hd
  obtain ⟨a, ha, h⟩ := Option.bind_eq_some_iff.mp h
  obtain ⟨b, hb, h⟩ := Option.bind_eq_some_iff.mp h
  obtain ⟨c, hc, h⟩ := Option.bind_eq_some_iff.mp h
  obtain ⟨d, hd, -⟩ := Option.map_eq_some_iff.mp h
  exact ⟨hquote ha, hquote hb, hquote hc, hquote hd⟩

/-- Four hexadecimal digits do not reach over the closing mark. -/
theorem hex4_before_quote {h3 h2 h1 h0 : UInt8} {u : UInt16} {bs : Bytes}
    (hbs : t ++ 0x22 :: r = h3 :: h2 :: h1 :: h0 :: bs) (hu : hex4 h3 h2 h1 h0 = some u) :
    ∃ t', t = [h3, h2, h1, h0] ++ t' ∧ bs = t' ++ 0x22 :: r := by
  obtain ⟨n3, n2, n1, n0⟩ := hex4_ne_quote hu
  match t, hbs with
  | [], hbs => exact absurd (List.cons.inj hbs).1.symm n3
  | [_], hbs => exact absurd (List.cons.inj (List.cons.inj hbs).2).1.symm n2
  | [_, _], hbs =>
    exact absurd (List.cons.inj (List.cons.inj (List.cons.inj hbs).2).2).1.symm n1
  | [_, _, _], hbs =>
    exact absurd (List.cons.inj (List.cons.inj (List.cons.inj (List.cons.inj hbs).2).2).2).1.symm
      n0
  | _ :: _ :: _ :: _ :: t', hbs =>
    cases hbs
    exact ⟨t', rfl, rfl⟩

theorem stringItems_outcome (hr : Quiet r)
    (h : stringItems (t ++ 0x22 :: r) = some (items, rest)) : Outcome t items := by
  induction hn : t.length using Nat.strong_induction_on generalizing t items with
  | _ n ih =>
    cases t with
    | nil =>
      rw [List.nil_append, stringItems_quote] at h
      cases h
      exact Or.inl ⟨fun b hb => absurd hb List.not_mem_nil, Nat.le_refl 0⟩
    | cons b t =>
      rw [List.length_cons] at hn
      rw [List.cons_append, stringItems.eq_def] at h
      dsimp only at h
      split at h
      next =>
        cases h
        exact Or.inr (Or.inl (Nat.succ_pos _))
      next hquote =>
        split at h
        next hback =>
          cases hback
          split at h
          next => cases h
          next e bs hbs =>
            split at h
            next he =>
              cases he
              split at h
              next h3 h2 h1 h0 bs =>
                obtain ⟨u, hu, h⟩ := Option.bind_eq_some_iff.mp h
                obtain ⟨⟨items', rest'⟩, hitems, heq⟩ := Option.map_eq_some_iff.mp h
                cases heq
                cases t with
                | nil => cases hbs
                | cons e t =>
                  obtain ⟨rfl, htail⟩ := List.cons.inj hbs
                  obtain ⟨t', rfl, rfl⟩ := hex4_before_quote htail hu
                  have hlen : t'.length < n := by
                    simp only [List.length_cons, List.length_append] at hn
                    omega
                  exact (ih t'.length hlen hitems rfl).escape
                    [0x5C, 0x75, h3, h2, h1, h0] (Nat.le_of_ble_eq_true rfl)
              next => cases h
            next he =>
              obtain ⟨c, hc, h⟩ := Option.bind_eq_some_iff.mp h
              obtain ⟨⟨items', rest'⟩, hitems, heq⟩ := Option.map_eq_some_iff.mp h
              cases heq
              cases t with
              | nil =>
                obtain ⟨rfl, rfl⟩ := List.cons.inj hbs
                cases hc
                exact Outcome.past hr hitems
              | cons e' t =>
                obtain ⟨rfl, rfl⟩ := List.cons.inj hbs
                have hlen : t.length < n := by
                  rw [List.length_cons] at hn
                  omega
                exact (ih t.length hlen hitems rfl).escape [0x5C, e'] (Nat.lt_succ_self 1)
        next hback =>
          split at h
          next => cases h
          next hctl =>
            obtain ⟨⟨items', rest'⟩, hitems, heq⟩ := Option.map_eq_some_iff.mp h
            cases heq
            exact (ih t.length (by omega) hitems rfl).byte ⟨Nat.not_lt.mp hctl, hquote, hback⟩

/-- A text that is read back as it is, is plain. -/
theorem plain_of_string (hr : Quiet r) (h : string (t ++ 0x22 :: r) = some (t, rest)) :
    Plain t := by
  obtain ⟨⟨items, rest'⟩, hitems, heq⟩ := Option.map_eq_some_iff.mp h
  obtain ⟨htext, rfl⟩ := Prod.mk.inj heq
  rcases stringItems_outcome hr hitems with ⟨hplain, -⟩ | hlt | ⟨hlast, front, b, rfl, hb⟩
  · exact hplain
  · have hle := length_itemsBytes_le items
    rw [htext] at hle
    omega
  · rw [itemsBytes_concat] at htext
    rw [← htext, List.getLast?_concat] at hlast
    exact absurd (Option.some.inj hlast) hb

end TelemetryTestbed.Lib.Json

import TelemetryTestbed.Laws.Telemetry.Sample
import TelemetryTestbed.Persistence.History

/-!
# The text of a history reply

Every operation on the string buffer either appends its text or leaves the buffer
as it is (`sbAppend_text`). From this follow the texts of the two loops: complete
where nothing fails (`readRows_text`, `writeItems_text`), and too short by what
did not get in where something does (`writeItems_length`, `joinItems_shorter`).

The texts are by induction on the rows, in the order in which the loop writes them, with the
buffer as it is before the item. How much is missing where an append failed is a length, since
what is missing is not a suffix: the comma may be there and the row not.
-/

namespace TelemetryTestbed.Persistence

open TelemetryTestbed.Lib Telemetry

/-! ## The buffer -/

/-- Every allocation to come succeeds. -/
def AllSucceed (as : Answers) : Prop := ∀ a ∈ as, a = true

theorem AllSucceed.next {as : Answers} (h : AllSucceed as) :
    as.next.1 = true ∧ AllSucceed as.next.2 := by
  cases as with
  | nil => exact ⟨rfl, h⟩
  | cons a as => exact ⟨h a List.mem_cons_self, fun b hb => h b (List.mem_cons_of_mem _ hb)⟩

theorem sbCopy_text (sb : StrBuf) (text : Bytes) (as : Answers) :
    (sbCopy sb text as).sb.text = if (sbCopy sb text as).ok then sb.text ++ text else sb.text := by
  unfold sbCopy
  split <;> rfl

/-- A buffer that something was written to has memory of its own. -/
theorem sbCopy_cap (sb : StrBuf) (text : Bytes) (as : Answers) (h : (sbCopy sb text as).ok = true) :
    (sbCopy sb text as).sb.cap ≠ 0 := by
  unfold sbCopy at h ⊢
  split at h
  · cases h
  · next cap as' hr =>
    have hroom := cap.2
    show cap.1 ≠ 0
    omega

theorem sbAppend_cap {sb : StrBuf} {s : Bytes} {as : Answers} (h : (sbAppend sb s as).ok = true) :
    (sbAppend sb s as).sb.cap ≠ 0 := sbCopy_cap sb (cstr s) as h

theorem AllSucceed.sbCopy {as : Answers} (h : AllSucceed as) (sb : StrBuf) (text : Bytes) :
    (sbCopy sb text as).ok = true ∧ AllSucceed (sbCopy sb text as).rest := by
  obtain ⟨hnext, hrest⟩ := h.next
  unfold Persistence.sbCopy sbReserve
  split
  · next hr =>
    split at hr
    · cases hr
    · simp at hr
  · next cap as' hr =>
    split at hr
    · cases hr
      exact ⟨rfl, h⟩
    · cases hr
      exact ⟨rfl, hrest⟩

theorem sbAppend_text {s : Bytes} (hs : (0 : UInt8) ∉ s) (sb : StrBuf) (as : Answers) :
    (sbAppend sb s as).sb.text = if (sbAppend sb s as).ok then sb.text ++ s else sb.text := by
  unfold sbAppend
  rw [sbCopy_text, cstr_eq_self hs]

theorem sbAppendf_text {fmt text : Bytes} {args : List CArg} (hfmt : (0 : UInt8) ∉ fmt)
    (h : cformat fmt args = some text) (sb : StrBuf) (as : Answers) :
    (sbAppendf sb fmt args as).sb.text =
      if (sbAppendf sb fmt args as).ok then sb.text ++ text else sb.text := by
  unfold sbAppendf
  simp only [h]
  split
  · exact sbCopy_text sb text as
  · split
    · exact sbAppend_text (zero_notMem_cformat h hfmt) sb _
    · rfl

theorem AllSucceed.sbAppendf {as : Answers} (h : AllSucceed as) {fmt text : Bytes}
    {args : List CArg} (hf : cformat fmt args = some text) (sb : StrBuf) :
    (sbAppendf sb fmt args as).ok = true ∧ AllSucceed (sbAppendf sb fmt args as).rest := by
  unfold Persistence.sbAppendf
  simp only [hf]
  split
  · exact h.sbCopy sb text
  · rw [if_pos h.next.1]
    exact h.next.2.sbCopy sb _

/-! ## A row -/

/-- The parts of the text of a row, as they are appended. -/
theorem row_parts (row : StateRow) : ∃ sample motors,
    cformat sampleFormat (sampleArgs row) = some sample ∧
    (row.hasMotors = true → cformat motorsFormat (motorsArgs row) = some motors) ∧
    row.fields.text =
      (if row.hasMotors then sample ++ motors else sample) ++ ascii "\x7d" := by
  have htext := appendRowAsSampleJson_eq row
  rw [show appendRowAsSampleJson row = (cformat sampleFormat (sampleArgs row)).bind fun sample =>
    if row.hasMotors then (cformat motorsFormat (motorsArgs row)).map fun motors =>
      sample ++ motors ++ ascii "\x7d" else some (sample ++ ascii "\x7d") from rfl] at htext
  obtain ⟨sample, hsample, hrest⟩ := Option.bind_eq_some_iff.mp htext
  by_cases hm : row.hasMotors = true
  · rw [if_pos hm] at hrest
    obtain ⟨motors, hmotors, hjoin⟩ := Option.map_eq_some_iff.mp hrest
    exact ⟨sample, motors, hsample, fun _ => hmotors, by rw [if_pos hm, hjoin]⟩
  · rw [if_neg hm] at hrest
    exact ⟨sample, [], hsample, fun h => absurd h hm, by rw [if_neg hm]; exact (Option.some.inj hrest).symm⟩

theorem zero_notMem_sampleFormat : (0 : UInt8) ∉ sampleFormat := by decide

theorem zero_notMem_motorsFormat : (0 : UInt8) ∉ motorsFormat := by decide

/-- A row that is written is written whole. -/
theorem appendRowTo_text {row : StateRow} {sb : StrBuf} {as : Answers}
    (h : (appendRowTo sb row as).ok = true) :
    (appendRowTo sb row as).sb.text = sb.text ++ row.fields.text ∧
      (appendRowTo sb row as).sb.cap ≠ 0 := by
  obtain ⟨sample, motors, hsample, hmotors, htext⟩ := row_parts row
  have hfirst := sbAppendf_text zero_notMem_sampleFormat hsample sb as
  have hclose : (0 : UInt8) ∉ ascii "\x7d" := by decide
  simp only [appendRowTo] at h ⊢
  cases hok : (sbAppendf sb sampleFormat (sampleArgs row) as).ok with
  | false => simp [hok] at h
  | true =>
    rw [hok, if_pos rfl] at hfirst
    simp only [hok, Bool.not_true, Bool.false_eq_true, if_false] at h ⊢
    by_cases hm : row.hasMotors = true
    · have hsecond := sbAppendf_text zero_notMem_motorsFormat (hmotors hm)
        (sbAppendf sb sampleFormat (sampleArgs row) as).sb
        (sbAppendf sb sampleFormat (sampleArgs row) as).rest
      simp only [hm, if_true] at h htext ⊢
      cases hok' : (sbAppendf (sbAppendf sb sampleFormat (sampleArgs row) as).sb motorsFormat
          (motorsArgs row) (sbAppendf sb sampleFormat (sampleArgs row) as).rest).ok with
      | false => simp [hok'] at h
      | true =>
        rw [hok', if_pos rfl] at hsecond
        simp only [hok', Bool.not_true, Bool.false_eq_true, if_false] at h ⊢
        refine ⟨?_, sbAppend_cap h⟩
        rw [sbAppend_text hclose, if_pos h, hsecond, hfirst, htext, List.append_assoc,
          List.append_assoc, List.append_assoc]
    · simp only [hm, Bool.false_eq_true, if_false, hok, Bool.not_true] at h htext ⊢
      refine ⟨?_, sbAppend_cap h⟩
      rw [sbAppend_text hclose, if_pos h, hfirst, htext, List.append_assoc]

theorem AllSucceed.appendRowTo {as : Answers} (h : AllSucceed as) (sb : StrBuf) (row : StateRow) :
    (appendRowTo sb row as).ok = true ∧ AllSucceed (appendRowTo sb row as).rest := by
  obtain ⟨sample, motors, hsample, hmotors, -⟩ := row_parts row
  obtain ⟨hok, hrest⟩ := h.sbAppendf hsample sb
  simp only [Persistence.appendRowTo, hok, Bool.not_true, Bool.false_eq_true, if_false]
  by_cases hm : row.hasMotors = true
  · obtain ⟨hok', hrest'⟩ := hrest.sbAppendf (hmotors hm)
      (Persistence.sbAppendf sb sampleFormat (sampleArgs row) as).sb
    simp only [hm, if_true, hok', Bool.not_true, Bool.false_eq_true, if_false]
    exact hrest'.sbCopy _ _
  · simp only [hm, Bool.false_eq_true, if_false, hok, Bool.not_true]
    exact hrest.sbCopy _ _

/-! ## The loops -/

/-- The rows of a result, with a step that fails or none. -/
def steps (result : List StateRow) : Option Nat → Cursor
  | none => result.map .row
  | some k => (result.take k).map .row ++ [.failed]

/-- Every row of the list can be written. -/
def rowsWritten : List StateRow → Answers → Bool
  | [], _ => true
  | row :: rows, as =>
    (appendRowTo .empty row as).ok && rowsWritten rows (appendRowTo .empty row as).rest

/-- Every `sb_append` of the second loop succeeds. -/
def itemsWritten : List StrBuf → StrBuf → Answers → Bool
  | [], _, _ => true
  | one :: rows, sb, as =>
    let item := sbAppend sb one.text as
    if rows.isEmpty then item.ok
    else
      let comma := sbAppend item.sb (ascii ",") item.rest
      item.ok && comma.ok && itemsWritten rows comma.sb comma.rest

/-- The texts that have been read are those of the first rows of the result, and of all of
them where nothing fails. -/
theorem readRows_text {n : Nat} {rows : List StateRow} (hn : rows.length ≤ n) (as : Answers)
    (rest : Cursor) (hrest : rest = [] ∨ rest = [.failed]) :
    (∀ one ∈ (readRows n (rows.map .row ++ rest) as).1, one.cap ≠ 0) ∧
    ((readRows n (rows.map .row ++ rest) as).1.map StrBuf.text <+: rows.map fun r => r.fields.text) ∧
    (rowsWritten rows as = true ↔
      (readRows n (rows.map .row ++ rest) as).1.map StrBuf.text = rows.map fun r => r.fields.text) := by
  induction rows generalizing n as with
  | nil =>
    have hread : readRows n rest as = ([], as) := by
      rcases hrest with rfl | rfl
      · cases n <;> rfl
      · cases n <;> rfl
    rw [List.map_nil, List.nil_append, hread]
    exact ⟨fun _ h => absurd h List.not_mem_nil, List.prefix_rfl, fun _ => rfl, fun _ => rfl⟩
  | cons row rows ih =>
    cases n with
    | zero => cases hn
    | succ n =>
      simp only [List.map_cons, List.cons_append, readRows, rowsWritten]
      cases hok : (appendRowTo .empty row as).ok with
      | false =>
        rw [if_neg Bool.false_ne_true]
        refine ⟨fun _ h => absurd h List.not_mem_nil, List.nil_prefix, ?_⟩
        rw [Bool.false_and]
        constructor
        · intro h
          cases h
        · intro h
          cases h
      | true =>
        obtain ⟨htext, hcap⟩ := appendRowTo_text hok
        obtain ⟨hcaps, hpre, hall⟩ := ih (Nat.le_of_succ_le_succ hn)
          (appendRowTo .empty row as).rest
        rw [show StrBuf.empty.text = [] from rfl, List.nil_append] at htext
        rw [if_pos rfl, Bool.true_and, List.map_cons, htext, List.cons_prefix_cons, List.cons.injEq]
        refine ⟨?_, And.intro rfl hpre, ?_⟩
        · intro one hone
          rcases List.mem_cons.mp hone with hone | hone
          · rw [hone]
            exact hcap
          · exact hcaps one hone
        · rw [hall]
          exact (and_iff_right rfl).symm

/-- What the second loop appends, where all its appends succeed. -/
theorem writeItems_text {rows : List StrBuf} (hcap : ∀ one ∈ rows, one.cap ≠ 0)
    (hzero : ∀ one ∈ rows, (0 : UInt8) ∉ one.text) {sb : StrBuf} {as : Answers}
    (h : itemsWritten rows sb as = true) :
    (writeItems rows sb as).1.text = sb.text ++ joinItems (rows.map StrBuf.text) := by
  have hcomma : (0 : UInt8) ∉ ascii "," := by decide
  induction rows generalizing sb as with
  | nil => exact (List.append_nil _).symm
  | cons one rows ih =>
    have hitem := sbAppend_text (hzero one List.mem_cons_self) sb as
    simp only [itemsWritten] at h
    simp only [writeItems, if_neg (hcap one List.mem_cons_self)]
    cases rows with
    | nil =>
      simp only [List.isEmpty_nil, if_true] at h ⊢
      rw [h, if_pos rfl] at hitem
      exact hitem
    | cons two rows =>
      simp only [List.isEmpty_cons, Bool.false_eq_true, if_false, Bool.and_eq_true] at h ⊢
      obtain ⟨⟨hok, hok'⟩, hrest⟩ := h
      have hsep := sbAppend_text hcomma (sbAppend sb one.text as).sb (sbAppend sb one.text as).rest
      rw [hok, if_pos rfl] at hitem
      rw [hok', if_pos rfl, hitem] at hsep
      rw [ih (fun o ho => hcap o (List.mem_cons_of_mem _ ho))
        (fun o ho => hzero o (List.mem_cons_of_mem _ ho)) hrest, hsep]
      simp only [List.map_cons, joinItems, List.append_assoc]

/-- Where an append fails, what is missing makes the text shorter. -/
theorem writeItems_length {rows : List StrBuf} (hcap : ∀ one ∈ rows, one.cap ≠ 0)
    (hzero : ∀ one ∈ rows, (0 : UInt8) ∉ one.text) (hne : ∀ one ∈ rows, one.text ≠ [])
    (sb : StrBuf) (as : Answers) :
    (writeItems rows sb as).1.text.length + (if itemsWritten rows sb as then 0 else 1) ≤
      sb.text.length + (joinItems (rows.map StrBuf.text)).length := by
  have hcomma : (0 : UInt8) ∉ ascii "," := by decide
  have happend : ∀ (s : Bytes), (0 : UInt8) ∉ s → s ≠ [] → ∀ (sb : StrBuf) (as : Answers),
      (sbAppend sb s as).sb.text.length + (if (sbAppend sb s as).ok then 0 else 1) ≤
        sb.text.length + s.length := by
    intro s hs hsne sb as
    have hpos := List.length_pos_of_ne_nil hsne
    rw [sbAppend_text hs]
    split
    · rw [List.length_append]
      exact Nat.le_refl _
    · omega
  induction rows generalizing sb as with
  | nil => exact Nat.le_refl _
  | cons one rows ih =>
    have hitem := happend one.text (hzero one List.mem_cons_self) (hne one List.mem_cons_self) sb as
    simp only [itemsWritten, writeItems, if_neg (hcap one List.mem_cons_self)]
    cases rows with
    | nil => exact hitem
    | cons two rows =>
      have hsep := happend (ascii ",") hcomma (by decide) (sbAppend sb one.text as).sb
        (sbAppend sb one.text as).rest
      have hlater := ih (fun o ho => hcap o (List.mem_cons_of_mem _ ho))
        (fun o ho => hzero o (List.mem_cons_of_mem _ ho))
        (fun o ho => hne o (List.mem_cons_of_mem _ ho))
        (sbAppend (sbAppend sb one.text as).sb (ascii ",") (sbAppend sb one.text as).rest).sb
        (sbAppend (sbAppend sb one.text as).sb (ascii ",") (sbAppend sb one.text as).rest).rest
      simp only [List.isEmpty_cons, Bool.false_eq_true, if_false, List.map_cons, joinItems,
        List.length_append] at hlater ⊢
      cases hi : (sbAppend sb one.text as).ok with
      | false =>
        simp only [hi, Bool.false_and, Bool.false_eq_true, if_false] at hitem ⊢
        omega
      | true =>
        cases hc : (sbAppend (sbAppend sb one.text as).sb (ascii ",")
            (sbAppend sb one.text as).rest).ok with
        | false =>
          simp only [hi, hc, Bool.and_false, Bool.false_and, Bool.false_eq_true, if_false,
            if_true] at hitem hsep ⊢
          omega
        | true =>
          simp only [hi, hc, Bool.and_self, Bool.true_and, if_true] at hitem hsep ⊢
          omega

theorem AllSucceed.rowsWritten {as : Answers} (h : AllSucceed as) (rows : List StateRow) :
    rowsWritten rows as = true := by
  induction rows generalizing as with
  | nil => rfl
  | cons row rows ih =>
    obtain ⟨hok, hrest⟩ := h.appendRowTo .empty row
    rw [Persistence.rowsWritten, hok, ih hrest]
    rfl

theorem AllSucceed.readRows {as : Answers} (h : AllSucceed as) (n : Nat) (cursor : Cursor) :
    AllSucceed (readRows n cursor as).2 := by
  fun_induction Persistence.readRows n cursor as with
  | case1 | case2 | case3 => exact h
  | case4 n r cursor as one hok ih => exact ih (h.appendRowTo .empty r).2
  | case5 n r cursor as one hok => exact absurd (h.appendRowTo .empty r).1 hok

theorem AllSucceed.itemsWritten {as : Answers} (h : AllSucceed as) (rows : List StrBuf)
    (sb : StrBuf) : itemsWritten rows sb as = true := by
  fun_induction Persistence.itemsWritten rows sb as with
  | case1 => rfl
  | case2 one rows sb as item hlast => exact (h.sbCopy sb _).1
  | case3 one rows sb as item hlast comma ih =>
    obtain ⟨hitem, hrest⟩ := h.sbCopy sb (cstr one.text)
    obtain ⟨hcomma, hrest'⟩ := hrest.sbCopy item.sb (cstr (ascii ","))
    rw [ih hrest', show item.ok = true from hitem, show comma.ok = true from hcomma]
    rfl

theorem AllSucceed.writeItems {as : Answers} (h : AllSucceed as) (rows : List StrBuf)
    (sb : StrBuf) : AllSucceed (writeItems rows sb as).2 := by
  fun_induction Persistence.writeItems rows sb as with
  | case1 => exact h
  | case2 one rows sb as hcap ih => exact ih h
  | case3 one rows sb as hcap item hlast ih => exact ih (h.sbCopy sb _).2
  | case4 one rows sb as hcap item hlast comma ih =>
    exact ih ((h.sbCopy sb _).2.sbCopy item.sb _).2

/-! ## The reply -/

/-- The reply for rows in the order they are written. -/
def historyText (rows : List StateRow) : Bytes :=
  historyHead ++ joinItems (rows.map fun r => r.fields.text) ++ historyTail

theorem rowText_ne_nil (row : StateRow) : row.fields.text ≠ [] := by
  obtain ⟨sample, motors, -, -, htext⟩ := row_parts row
  rw [htext]
  exact List.append_ne_nil_of_right_ne_nil _ (by decide)

theorem zero_notMem_rowText (row : StateRow) : (0 : UInt8) ∉ row.fields.text := by
  obtain ⟨sample, motors, hsample, hmotors, htext⟩ := row_parts row
  have hs := zero_notMem_cformat hsample zero_notMem_sampleFormat
  have hclose : (0 : UInt8) ∉ ascii "\x7d" := by decide
  rw [htext]
  intro h0
  rcases List.mem_append.mp h0 with h0 | h0
  · split at h0
    · next hm =>
      rcases List.mem_append.mp h0 with h0 | h0
      · exact hs h0
      · exact zero_notMem_cformat (hmotors hm) zero_notMem_motorsFormat h0
    · exact hs h0
  · exact hclose h0

/-- The texts with commas between them are longer the more texts there are. -/
theorem length_joinItems (texts : List Bytes) :
    (joinItems texts).length = (texts.map List.length).sum + (texts.length - 1) := by
  fun_induction joinItems texts with
  | case1 => rfl
  | case2 text => simp
  | case3 text texts hne ih =>
    have hpos : 0 < texts.length := List.length_pos_of_ne_nil fun h => hne h
    have hcomma : (ascii ",").length = 1 := by decide
    simp only [List.length_append, ih, hcomma, List.map_cons, List.sum_cons, List.length_cons]
    omega

theorem joinItems_shorter {texts all : List Bytes} (h : texts <+: all)
    (hne : ∀ text ∈ all, text ≠ []) :
    (joinItems texts.reverse).length + (if texts = all then 0 else 1) ≤
      (joinItems all.reverse).length := by
  obtain ⟨more, rfl⟩ := h
  have hsum : ∀ l : List Bytes, (l.reverse.map List.length).sum = (l.map List.length).sum := by
    intro l
    rw [List.map_reverse, List.sum_reverse]
  rw [length_joinItems, length_joinItems, hsum, hsum]
  simp only [List.map_append, List.sum_append, List.length_reverse, List.length_append]
  cases more with
  | nil =>
    rw [if_pos (List.append_nil texts).symm]
    simp
  | cons text more =>
    have hpos : 0 < text.length := List.length_pos_of_ne_nil
      (hne text (List.mem_append_right _ List.mem_cons_self))
    have hproper : texts ≠ texts ++ text :: more := by
      intro he
      have hlen := congrArg List.length he
      rw [List.length_append, List.length_cons] at hlen
      omega
    rw [if_neg hproper]
    simp only [List.map_cons, List.sum_cons, List.length_cons]
    omega

end TelemetryTestbed.Persistence

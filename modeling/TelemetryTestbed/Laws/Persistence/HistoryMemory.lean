import TelemetryTestbed.Laws.Persistence.History
import TelemetryTestbed.Persistence.HistoryMemory

/-!
# The history query gives back what it took

Whatever allocation or step fails, the statement is finalised and every block is freed
once, none of them is used before it is there or behind its `free`, and what is left is
the reply, where there is one.

The triples of the resource library are put together along the two loops. A row that was
stored has its text until the second loop frees it, so the induction on the rows carries a set
of rows with their texts, and the end of the loop finds the table alone.
-/

namespace TelemetryTestbed.Persistence

open TelemetryTestbed.Lib

/-- Nothing here stands on anything else. -/
abbrev runHistory : List HistoryResource → HistoryEvents → Option (List HistoryResource) :=
  exec (resourceStep fun _ => [])

variable {r : HistoryResource} {sb : StrBuf} {held held' : List HistoryResource}

/-! ## One event -/

theorem run_acquire (h : r ∉ held) (es : HistoryEvents) :
    runHistory held (.acquire r :: es) = runHistory (r :: held) es := by
  have huses : ∀ u ∈ ([] : List HistoryResource), u ∈ held := fun u hu =>
    absurd hu List.not_mem_nil
  rw [runHistory, exec, resourceStep, if_pos ⟨h, huses⟩, Option.bind_some]

theorem run_release (h : r ∈ held) (es : HistoryEvents) :
    runHistory held (.release r :: es) = runHistory (held.erase r) es := by
  rw [runHistory, exec, resourceStep, if_pos ⟨h, fun _ _ => List.not_mem_nil⟩, Option.bind_some]

theorem run_touch (h : r ∈ held) (es : HistoryEvents) :
    runHistory held (.touch r :: es) = runHistory held es := by
  rw [runHistory, exec, resourceStep, if_pos h, Option.bind_some]

theorem run_append {es : HistoryEvents} (h : runHistory held es = some held')
    (es' : HistoryEvents) : runHistory held (es ++ es') = runHistory held' es' := by
  have happ : runHistory held (es ++ es') =
      (runHistory held es).bind fun m => runHistory m es' := exec_append
  rw [happ, h, Option.bind_some]

/-! ## The buffer -/

/-- A buffer has its block exactly if it has a capacity. -/
structure Owns (r : HistoryResource) (sb : StrBuf) (held : List HistoryResource) : Prop where
  free : sb.cap = 0 → r ∉ held
  block : sb.cap ≠ 0 → r ∈ held

/-- What is held behind an operation on a buffer: the same, or its first block too. -/
structure Grows (r : HistoryResource) (sb : StrBuf) (held held' : List HistoryResource) :
    Prop where
  owns : Owns r sb held'
  held : held' = held ∨ r ∉ held ∧ held' = r :: held

theorem Owns.same (h : Owns r sb held) : Grows r sb held held := ⟨h, Or.inl rfl⟩

theorem Grows.trans {sb' : StrBuf} {held'' : List HistoryResource} (h : Grows r sb held held')
    (h' : Grows r sb' held' held'') : Grows r sb' held held'' := by
  refine ⟨h'.owns, ?_⟩
  rcases h.held with rfl | ⟨hnew, rfl⟩
  · exact h'.held
  · rcases h'.held with rfl | ⟨hnot, -⟩
    · exact Or.inr ⟨hnew, rfl⟩
    · exact absurd List.mem_cons_self hnot

theorem Grows.mem (h : Grows r sb held held') {u : HistoryResource} (hu : u ∈ held) :
    u ∈ held' := by
  rcases h.held with rfl | ⟨-, rfl⟩
  · exact hu
  · exact List.mem_cons_of_mem r hu

theorem run_sbCopy (h : Owns r sb held) (text : Bytes) (as : Answers) :
    ∃ held', runHistory held (sbCopyEvents r sb text as) = some held' ∧
      Grows r (sbCopy sb text as).sb held held' := by
  unfold sbCopyEvents sbReserveEvents
  by_cases hroom : sb.text.length + text.length + 1 ≤ sb.cap
  · have hblock : r ∈ held := h.block (by omega)
    have hcopy : (sbCopy sb text as).ok = true := by simp [sbCopy, sbReserve, hroom]
    refine ⟨held, ?_, ⟨fun hcap => absurd hcap (sbCopy_cap sb text as hcopy), fun _ => hblock⟩,
      Or.inl rfl⟩
    rw [if_pos hroom, hcopy, if_pos rfl, List.nil_append, run_touch hblock]
    rfl
  · rw [if_neg hroom]
    by_cases hnext : as.next.1 = true
    · have hcopy : (sbCopy sb text as).ok = true := by simp [sbCopy, sbReserve, hroom, hnext]
      have hcap := sbCopy_cap sb text as hcopy
      rw [if_pos hnext, hcopy, if_pos rfl]
      by_cases hzero : sb.cap = 0
      · have hfree := h.free hzero
        refine ⟨r :: held, ?_, ⟨fun hc => absurd hc hcap, fun _ => List.mem_cons_self⟩,
          Or.inr ⟨hfree, rfl⟩⟩
        rw [if_pos hzero, List.singleton_append, run_acquire hfree, run_touch List.mem_cons_self]
        rfl
      · have hblock := h.block hzero
        refine ⟨held, ?_, ⟨fun hc => absurd hc hcap, fun _ => hblock⟩, Or.inl rfl⟩
        rw [if_neg hzero, List.singleton_append, run_touch hblock, run_touch hblock]
        rfl
    · have hcopy : sbCopy sb text as = ⟨false, sb, as.next.2⟩ := by
        simp [sbCopy, sbReserve, hroom, hnext]
      refine ⟨held, ?_, ?_⟩
      · rw [if_neg hnext, hcopy]
        rfl
      · rw [hcopy]
        exact h.same

theorem run_sbAppend (h : Owns r sb held) (s : Bytes) (as : Answers) :
    ∃ held', runHistory held (sbAppendEvents r sb s as) = some held' ∧
      Grows r (sbAppend sb s as).sb held held' := run_sbCopy h (cstr s) as

theorem Owns.cons {u : HistoryResource} (h : Owns r sb held) (hu : r ≠ u) :
    Owns r sb (u :: held) :=
  ⟨fun hcap => List.not_mem_cons_of_ne_of_not_mem hu (h.free hcap),
    fun hcap => List.mem_cons_of_mem u (h.block hcap)⟩

/-- The block of `big` is freed again. -/
theorem run_sbAppendf (h : Owns r sb held) (hr : r ≠ .big) (hbig : .big ∉ held) (fmt : Bytes)
    (args : List CArg) (as : Answers) :
    ∃ held', runHistory held (sbAppendfEvents r sb fmt args as) = some held' ∧
      Grows r (sbAppendf sb fmt args as).sb held held' := by
  unfold sbAppendfEvents sbAppendf
  cases cformat fmt args with
  | none => exact ⟨held, rfl, h.same⟩
  | some text =>
    dsimp only
    split
    next => exact run_sbCopy h text as
    next =>
      split
      next =>
        obtain ⟨held', hrun, hgrows⟩ := run_sbAppend (h.cons hr) text as.next.2
        have hmem : .big ∈ held' := hgrows.mem List.mem_cons_self
        have hevents : runHistory held ([.acquire .big, .touch .big] ++
            sbAppendEvents r sb text as.next.2 ++ [.release .big]) = some (held'.erase .big) := by
          rw [List.append_assoc, List.cons_append, List.cons_append, List.nil_append,
            run_acquire hbig, run_touch List.mem_cons_self]
          rw [run_append hrun, run_release hmem]
          rfl
        refine ⟨held'.erase .big, hevents, ?_⟩
        rcases hgrows.held with rfl | ⟨hnew, rfl⟩
        · rw [List.erase_cons_head]
          refine ⟨⟨fun hcap hin => hgrows.owns.free hcap (List.mem_cons_of_mem _ hin),
            fun hcap => ?_⟩, Or.inl rfl⟩
          exact (List.mem_cons.mp (hgrows.owns.block hcap)).resolve_left hr
        · have herase : (r :: .big :: held).erase .big = r :: held := by
            rw [List.erase_cons_tail (by simpa using hr), List.erase_cons_head]
          rw [herase]
          have hfree : r ∉ held := fun hin => hnew (List.mem_cons_of_mem _ hin)
          refine ⟨⟨fun hcap => absurd List.mem_cons_self (hgrows.owns.free hcap),
            fun _ => List.mem_cons_self⟩, Or.inr ⟨hfree, rfl⟩⟩
      next => exact ⟨held, rfl, h.same⟩

theorem run_sbFree (h : Grows r sb held held') (hnew : r ∉ held) :
    runHistory held' (sbFreeEvents r sb) = some held := by
  unfold sbFreeEvents
  rcases h.held with rfl | ⟨-, rfl⟩
  · have hcap : sb.cap = 0 := by
      by_contra hcap
      exact hnew (h.owns.block hcap)
    rw [if_pos hcap]
    rfl
  · have hcap : sb.cap ≠ 0 := fun hcap => h.owns.free hcap List.mem_cons_self
    rw [if_neg hcap, run_release List.mem_cons_self, List.erase_cons_head]
    rfl

/-! ## A row -/

theorem run_motors {sample : Appended} (h : Owns r sample.sb held) (hr : r ≠ .big)
    (hbig : .big ∉ held) (row : StateRow) :
    ∃ held', runHistory held (if row.hasMotors then
        sbAppendfEvents r sample.sb motorsFormat (motorsArgs row) sample.rest else []) =
          some held' ∧
      Grows r (if row.hasMotors then
        sbAppendf sample.sb motorsFormat (motorsArgs row) sample.rest else sample).sb
          held held' := by
  split
  · exact run_sbAppendf h hr hbig motorsFormat (motorsArgs row) sample.rest
  · exact ⟨held, rfl, h.same⟩

theorem run_appendRow (h : Owns r sb held) (hr : r ≠ .big) (hbig : .big ∉ held) (hst : .st ∈ held)
    (row : StateRow) (as : Answers) :
    ∃ held', runHistory held (appendRowEvents r sb row as) = some held' ∧
      Grows r (appendRowTo sb row as).sb held held' := by
  unfold appendRowEvents appendRowTo
  dsimp only
  obtain ⟨held₁, hrun₁, hgrows₁⟩ := run_sbAppendf h hr hbig sampleFormat (sampleArgs row) as
  generalize sbAppendf sb sampleFormat (sampleArgs row) as = sample at hgrows₁ ⊢
  have hbig₁ : .big ∉ held₁ := by
    rcases hgrows₁.held with rfl | ⟨-, rfl⟩
    · exact hbig
    · exact List.not_mem_cons_of_ne_of_not_mem hr.symm hbig
  obtain ⟨held₂, hrun₂, hgrows₂⟩ := run_motors hgrows₁.owns hr hbig₁ row
  generalize (if row.hasMotors then
    sbAppendf sample.sb motorsFormat (motorsArgs row) sample.rest else sample) = motors
    at hgrows₂ ⊢
  obtain ⟨held₃, hrun₃, hgrows₃⟩ := run_sbAppend hgrows₂.owns (ascii "\x7d") motors.rest
  rw [List.append_assoc, List.singleton_append, run_touch hst, run_append hrun₁]
  cases sample.ok with
  | false => exact ⟨held₁, rfl, hgrows₁⟩
  | true =>
    rw [Bool.not_true, if_neg Bool.false_ne_true, if_neg Bool.false_ne_true, run_append hrun₂]
    cases motors.ok with
    | false => exact ⟨held₂, rfl, hgrows₁.trans hgrows₂⟩
    | true => exact ⟨held₃, hrun₃, (hgrows₁.trans hgrows₂).trans hgrows₃⟩

/-! ## The first loop -/

theorem appendRowTo_cap {sb : StrBuf} {row : StateRow} {as : Answers}
    (h : (appendRowTo sb row as).ok = true) : (appendRowTo sb row as).sb.cap ≠ 0 := by
  unfold appendRowTo at h ⊢
  generalize sbAppendf sb sampleFormat (sampleArgs row) as = sample at h ⊢
  dsimp only at h ⊢
  generalize (if row.hasMotors then
    sbAppendf sample.sb motorsFormat (motorsArgs row) sample.rest else sample) = motors at h ⊢
  cases hsample : sample.ok with
  | false => simp [hsample] at h
  | true =>
    cases hmotors : motors.ok with
    | false => simp [hsample, hmotors] at h
    | true =>
      simp only [hsample, hmotors, Bool.not_true, if_neg Bool.false_ne_true] at h ⊢
      exact sbAppend_cap h

/-- The blocks of the rows below `i`, the newest first. -/
def rowBlocks : Nat → List HistoryResource
  | 0 => []
  | i + 1 => .row i :: rowBlocks i

theorem mem_rowBlocks {i : Nat} : r ∈ rowBlocks i ↔ ∃ k < i, r = .row k := by
  induction i with
  | zero => simp [rowBlocks]
  | succ i ih =>
    rw [rowBlocks, List.mem_cons, ih]
    constructor
    · rintro (rfl | ⟨k, hk, rfl⟩)
      · exact ⟨i, Nat.lt_succ_self i, rfl⟩
      · exact ⟨k, Nat.lt_succ_of_lt hk, rfl⟩
    · rintro ⟨k, hk, rfl⟩
      rcases Nat.lt_succ_iff_lt_or_eq.mp hk with hk | rfl
      · exact Or.inr ⟨k, hk, rfl⟩
      · exact Or.inl rfl

/-- What is held while the rows are read. -/
def reading (i : Nat) : List HistoryResource := rowBlocks i ++ [.rows, .reply, .st]

theorem row_notMem_reading (i : Nat) : .row i ∉ reading i := by
  simp [reading, mem_rowBlocks]

theorem mem_reading {u : HistoryResource} (h : u ∈ [HistoryResource.rows, .reply, .st]) (i : Nat) :
    u ∈ reading i := List.mem_append_right _ h

theorem run_readRows (n : Nat) : ∀ (i : Nat) (cursor : Cursor) (as : Answers),
    runHistory (reading i) (readRowsEvents i n cursor as) =
        some (reading (i + (readRows n cursor as).1.length)) ∧
      ∀ one ∈ (readRows n cursor as).1, one.cap ≠ 0 := by
  have hstop : ∀ i, runHistory (reading i) [.touch .st] = some (reading i) := by
    intro i
    rw [run_touch (mem_reading (by decide) i)]
    rfl
  induction n with
  | zero =>
    intro i cursor as
    match cursor with
    | [] | .failed :: _ | .row _ :: _ => exact ⟨hstop i, nofun⟩
  | succ n ih =>
    intro i cursor as
    match cursor with
    | [] | .failed :: _ => exact ⟨hstop i, nofun⟩
    | .row row :: cursor =>
      have howns : Owns (.row i) .empty (reading i) :=
        ⟨fun _ => row_notMem_reading i, fun hcap => absurd rfl hcap⟩
      have hbig : .big ∉ reading i := by simp [reading, mem_rowBlocks]
      obtain ⟨held', hrun, hgrows⟩ := run_appendRow howns nofun hbig
        (mem_reading (by decide) i) row as
      rw [readRowsEvents, readRows]
      rw [List.append_assoc, List.singleton_append, run_touch (mem_reading (by decide) i),
        run_append hrun]
      cases hok : (appendRowTo .empty row as).ok with
      | false =>
        rw [if_neg Bool.false_ne_true, if_neg Bool.false_ne_true,
          run_sbFree hgrows (row_notMem_reading i)]
        exact ⟨rfl, fun one hone => absurd hone List.not_mem_nil⟩
      | true =>
        have hheld : held' = reading (i + 1) := by
          rcases hgrows.held with rfl | ⟨-, rfl⟩
          · exact absurd (hgrows.owns.block (appendRowTo_cap hok)) (row_notMem_reading i)
          · rfl
        obtain ⟨hloop, hcaps⟩ := ih (i + 1) cursor (appendRowTo .empty row as).rest
        rw [if_pos rfl, if_pos rfl, hheld, List.singleton_append,
          run_touch (mem_reading (by decide) _), hloop]
        refine ⟨?_, List.forall_mem_cons.mpr ⟨appendRowTo_cap hok, hcaps⟩⟩
        rw [List.length_cons, Nat.add_assoc, Nat.add_comm 1]

/-! ## The second loop -/

/-- What is held while the rows go into the reply. -/
def writing (i : Nat) : List HistoryResource := rowBlocks i ++ [.rows, .reply]

theorem erase_st (i : Nat) : (reading i).erase .st = writing i := by
  have hst : .st ∉ rowBlocks i := by simp [mem_rowBlocks]
  rw [reading, List.erase_append_right _ hst, writing]
  rfl

/-- The reply has a block, and keeps it. -/
theorem Owns.stays {sb' : StrBuf} (h : Grows .reply sb' held held') (hmem : .reply ∈ held) :
    held' = held := h.held.resolve_right fun hnew => hnew.1 hmem

theorem run_reply (hmem : .reply ∈ held) (hcap : sb.cap ≠ 0) (s : Bytes) (as : Answers) :
    runHistory held (sbAppendEvents .reply sb s as) = some held ∧
      (sbAppend sb s as).sb.cap ≠ 0 := by
  have howns : Owns .reply sb held := ⟨fun hzero => absurd hzero hcap, fun _ => hmem⟩
  obtain ⟨held', hrun, hgrows⟩ := run_sbAppend howns s as
  obtain rfl := Owns.stays hgrows hmem
  exact ⟨hrun, fun hzero => hgrows.owns.free hzero hmem⟩

theorem run_writeItems {rows : List StrBuf} (hrows : ∀ one ∈ rows, one.cap ≠ 0) :
    ∀ (sb : StrBuf) (as : Answers), sb.cap ≠ 0 →
      runHistory (writing rows.length) (writeItemsEvents rows sb as) = some (writing 0) ∧
        (writeItems rows sb as).1.cap ≠ 0 := by
  induction rows with
  | nil => exact fun sb as hcap => ⟨rfl, hcap⟩
  | cons one rows ih =>
    intro sb as hcap
    obtain ⟨hone, hrows⟩ := List.forall_mem_cons.mp hrows
    have hheld : ∀ u ∈ [HistoryResource.rows, .reply], u ∈ writing (one :: rows).length :=
      fun u hu => List.mem_append_right _ hu
    have hrow : .row rows.length ∈ writing (one :: rows).length := List.mem_cons_self
    have hfree : ∀ es, runHistory (writing (one :: rows).length)
        (.release (.row rows.length) :: es) = runHistory (writing rows.length) es := by
      intro es
      have herase : (writing (one :: rows).length).erase (.row rows.length) =
          writing rows.length := List.erase_cons_head _ _
      rw [run_release hrow, herase]
    obtain ⟨hitem, hitemCap⟩ := run_reply (hheld .reply (by decide)) hcap one.text as
    rw [writeItemsEvents, writeItems, List.singleton_append, run_touch (hheld .rows (by decide)),
      if_neg hone, if_neg hone]
    dsimp only
    rw [List.append_assoc, List.singleton_append, run_touch hrow, run_append hitem]
    split
    next =>
      rw [List.singleton_append, hfree]
      exact ih hrows _ _ hitemCap
    next =>
      obtain ⟨hcomma, hcommaCap⟩ := run_reply (hheld .reply (by decide)) hitemCap (ascii ",")
        (sbAppend sb one.text as).rest
      rw [List.append_assoc, run_append hcomma, List.singleton_append, hfree]
      exact ih hrows _ _ hcommaCap

/-! ## The query -/

theorem sbCopy_failed {text : Bytes} {as : Answers} (h : (sbCopy sb text as).ok = false) :
    (sbCopy sb text as).sb = sb := by
  unfold sbCopy at h ⊢
  split at h
  next => rfl
  next => cases h

theorem sbAppend_failed {s : Bytes} {as : Answers} (h : (sbAppend sb s as).ok = false) :
    (sbAppend sb s as).sb = sb := sbCopy_failed h

/-- What is left behind a call: the reply, if there is one. -/
def left : Except Int (Bytes × Nat) → List HistoryResource
  | .ok _ => [.reply]
  | .error _ => []

/-- **The history query gives back what it took.** For every limit, every result of the prepare,
every sequence of answers of `sqlite3_step` and every pattern of failing allocations, the events
of `db_reader_history_last_json` run through: the statement is finalised once, every block is
freed once, nothing is used where it is not there. What is left at the end is the reply, where
there is one, and nothing where the function returns an error. -/
theorem history_gives_back (limit : Int32) (prepared : Bool) (cursor : Cursor) (as : Answers) :
    runHistory [] (dbReaderHistoryEvents limit prepared cursor as) =
      some (left (dbReaderHistoryLastJson limit prepared cursor as)) := by
  unfold dbReaderHistoryEvents dbReaderHistoryLastJson
  cases prepared with
  | false => rfl
  | true =>
    have hempty : Owns .reply .empty [HistoryResource.st] :=
      ⟨fun _ => by decide, fun hcap => absurd rfl hcap⟩
    obtain ⟨held, hrun, hgrows⟩ := run_sbAppend hempty historyHead as
    have hcap := @sbAppend_cap .empty historyHead as
    have hfailed := @sbAppend_failed .empty historyHead as
    generalize sbAppend .empty historyHead as = head at hgrows hcap hfailed ⊢
    rw [Bool.not_true, if_neg Bool.false_ne_true, if_neg Bool.false_ne_true]
    dsimp only
    rw [List.append_assoc, List.singleton_append, run_acquire (by decide), run_append hrun]
    cases hok : head.ok with
    | false =>
      have hfree : .reply ∉ held := hgrows.owns.free (by rw [hfailed hok]; rfl)
      obtain rfl : held = [.st] := hgrows.held.resolve_right fun hnew =>
        hfree (by rw [hnew.2]; exact List.mem_cons_self)
      rfl
    | true =>
      have hblock : .reply ∈ held := hgrows.owns.block (hcap hok)
      obtain rfl : held = [.reply, .st] := (hgrows.held.resolve_left fun heq =>
        absurd (heq ▸ hblock) (by decide)).2
      rw [Bool.not_true, if_neg Bool.false_ne_true, if_neg Bool.false_ne_true]
      cases head.rest.next.1 with
      | false =>
        rw [Bool.not_false, if_pos rfl, if_pos rfl, sbFreeEvents, if_neg (hcap hok)]
        decide
      | true =>
        obtain ⟨hread, hcaps⟩ := run_readRows (historyLimit limit) 0 cursor head.rest.next.2
        generalize readRows (historyLimit limit) cursor head.rest.next.2 = read at hread hcaps ⊢
        have hitems : ∀ one ∈ read.1.reverse, one.cap ≠ 0 := fun one hone =>
          hcaps one (List.mem_reverse.mp hone)
        obtain ⟨hwrite, hwritten⟩ := run_writeItems hitems head.sb read.2 (hcap hok)
        generalize writeItems read.1.reverse head.sb read.2 = written at hwritten ⊢
        have hst : .st ∈ reading (0 + read.1.length) := mem_reading (by decide) _
        have hrows : HistoryResource.rows ∈ writing 0 := by decide
        have hreply : HistoryResource.reply ∈ [HistoryResource.reply] := List.mem_cons_self
        obtain ⟨htail, htailCap⟩ := run_reply hreply hwritten historyTail written.2
        generalize sbAppend written.1 historyTail written.2 = last at htailCap ⊢
        rw [Bool.not_true, if_neg Bool.false_ne_true, if_neg Bool.false_ne_true]
        simp only [List.append_assoc, List.cons_append, List.nil_append]
        have hrelease : (reading (0 + read.1.length)).erase .st = writing read.1.reverse.length := by
          rw [erase_st, Nat.zero_add, List.length_reverse]
        have hlast : runHistory [.reply] (if last.ok then [] else sbFreeEvents .reply last.sb) =
            some (left (if last.ok then .ok (last.sb.text, last.sb.text.length)
              else .error (-5))) := by
          cases last.ok with
          | true => rfl
          | false =>
            rw [if_neg Bool.false_ne_true, if_neg Bool.false_ne_true, sbFreeEvents,
              if_neg htailCap]
            decide
        calc runHistory [.reply, .st] _
          _ = runHistory (reading 0) _ := run_acquire (by decide) _
          _ = runHistory (reading (0 + read.1.length)) _ := run_append hread _
          _ = runHistory (writing read.1.reverse.length) _ := by rw [run_release hst, hrelease]
          _ = runHistory (writing 0) _ := run_append hwrite _
          _ = runHistory [.reply] _ := run_release hrows _
          _ = runHistory [.reply] _ := run_append htail _
          _ = _ := hlast

end TelemetryTestbed.Persistence

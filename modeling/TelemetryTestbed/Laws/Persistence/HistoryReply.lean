import TelemetryTestbed.Laws.Persistence.History
import TelemetryTestbed.Laws.Telemetry.RoundTrip

/-!
# The reply to a history request

Where nothing fails, the reply holds the newest rows, oldest first
(`history_exact`). Some of the calls that can fail are not looked at, or end a loop
as if the rows were at an end: a failure there makes the reply shorter, and it is
sent all the same (`history_allOrNothing_iff`).

Which rows are the newest is told by a relation on the table and the answer (`Newest`), and it
follows from the selection that the database makes; among rows of one time it leaves the
choice open. The second law is exact in both parts, so the failures that are not looked at are
all of them.
-/

namespace TelemetryTestbed.Persistence

open TelemetryTestbed.Lib Telemetry Json

/-- What the environment answers during one call: whether the query is prepared, which step
fails, and which allocations. -/
structure HistoryEnv where
  prepared : Bool
  failing : Option Nat
  allocs : Answers

section

variable (limit : Int32) (result : List StateRow) (env : HistoryEnv)

/-- The reply to a request, where `result` is the result of the query. -/
def HistoryEnv.reply : Except Int (Bytes × Nat) :=
  dbReaderHistoryLastJson limit env.prepared (steps result env.failing) env.allocs

/-- The first append. -/
def HistoryEnv.head : Appended := sbAppend .empty historyHead env.allocs

/-- What the loops leave behind: the texts that were read, and the reply with them. -/
def HistoryEnv.read : List StrBuf × Answers :=
  readRows (historyLimit limit) (steps result env.failing) env.head.rest.next.2

def HistoryEnv.written : StrBuf × Answers :=
  writeItems (env.read limit result).1.reverse env.head.sb (env.read limit result).2

/-- The last append. -/
def HistoryEnv.last : Appended :=
  sbAppend (env.written limit result).1 historyTail (env.written limit result).2

/-- One of the calls fails whose results the program looks at: the prepare, the first append,
the allocation of the row table, or the last append. -/
def HistoryEnv.CheckedFails : Prop :=
  env.prepared = false ∨ env.head.ok = false ∨ env.head.rest.next.1 = false ∨
    (env.last limit result).ok = false

/-- None of the calls fails whose results the program does not look at, or takes for the end
of the rows: no step before the last row, no row, no append of the second loop. -/
def HistoryEnv.UncheckedSucceed : Prop :=
  (∀ k, env.failing = some k → result.length ≤ k) ∧
    rowsWritten result env.head.rest.next.2 = true ∧
      itemsWritten (env.read limit result).1.reverse env.head.sb (env.read limit result).2 = true

/-- The request either fails or is answered with all rows of the result. -/
def HistoryEnv.AllOrNothing : Prop :=
  ∀ out, env.reply limit result = .ok out →
    out = (historyText result.reverse, (historyText result.reverse).length)

variable {limit result env}

theorem zero_notMem_historyHead : (0 : UInt8) ∉ historyHead := by decide

theorem zero_notMem_historyTail : (0 : UInt8) ∉ historyTail := by decide

theorem HistoryEnv.reply_of_checked (h : env.CheckedFails limit result) :
    ∃ code, env.reply limit result = .error code := by
  unfold HistoryEnv.reply dbReaderHistoryLastJson
  rcases h with h | h | h | h
  · exact ⟨_, by rw [h]; rfl⟩
  · split
    · exact ⟨_, rfl⟩
    · simp only [HistoryEnv.head] at h
      simp only [h]
      exact ⟨_, rfl⟩
  · split
    · exact ⟨_, rfl⟩
    · simp only [HistoryEnv.head] at h
      simp only [h]
      split <;> exact ⟨_, rfl⟩
  · simp only [HistoryEnv.last, HistoryEnv.written, HistoryEnv.read, HistoryEnv.head] at h
    simp only [h]
    split
    · exact ⟨_, rfl⟩
    · split
      · exact ⟨_, rfl⟩
      · split <;> exact ⟨_, rfl⟩

/-- Where no checked call fails, the reply is what the loops have written. -/
theorem HistoryEnv.reply_of_not_checked (h : ¬ env.CheckedFails limit result) :
    env.reply limit result =
      .ok ((env.last limit result).sb.text, (env.last limit result).sb.text.length) ∧
    env.head.sb.text = historyHead ∧
    (env.last limit result).sb.text = (env.written limit result).1.text ++ historyTail := by
  simp only [HistoryEnv.CheckedFails, not_or, Bool.not_eq_false] at h
  obtain ⟨hprep, hhead, hcalloc, hlast⟩ := h
  refine ⟨?_, ?_, ?_⟩
  · simp only [HistoryEnv.last, HistoryEnv.written, HistoryEnv.read, HistoryEnv.head]
      at hhead hcalloc hlast ⊢
    simp only [HistoryEnv.reply, dbReaderHistoryLastJson, hprep, hhead, hcalloc, hlast,
      Bool.not_true, Bool.false_eq_true, if_false, if_true]
  · have hok : (sbAppend .empty historyHead env.allocs).ok = true := hhead
    rw [HistoryEnv.head, sbAppend_text zero_notMem_historyHead, if_pos hok]
    rfl
  · have hok : (sbAppend (env.written limit result).1 historyTail
        (env.written limit result).2).ok = true := hlast
    rw [HistoryEnv.last, sbAppend_text zero_notMem_historyTail, if_pos hok]

theorem exists_steps (result : List StateRow) (failing : Option Nat) : ∃ rows rest,
    steps result failing = rows.map .row ++ rest ∧ (rest = [] ∨ rest = [.failed]) ∧
      rows <+: result ∧ (rows = result ↔ ∀ k, failing = some k → result.length ≤ k) := by
  cases failing with
  | none =>
    refine ⟨result, [], (List.append_nil _).symm, .inl rfl, List.prefix_rfl, ?_⟩
    exact iff_of_true rfl fun k hk => by cases hk
  | some k =>
    refine ⟨result.take k, [.failed], rfl, .inr rfl, List.take_prefix _ _, ?_⟩
    rw [List.take_eq_self_iff]
    constructor
    · rintro hle k' hk
      cases hk
      exact hle
    · intro h
      exact h k rfl

/-- What has been read are the texts of the first rows of the result, and of all of them where
no step and no row fails. -/
theorem HistoryEnv.read_text (hlimit : result.length ≤ historyLimit limit) :
    (∀ one ∈ (env.read limit result).1, one.cap ≠ 0) ∧
    ((env.read limit result).1.map StrBuf.text <+: result.map fun r => r.fields.text) ∧
    ((∀ k, env.failing = some k → result.length ≤ k) ∧
        rowsWritten result env.head.rest.next.2 = true ↔
      (env.read limit result).1.map StrBuf.text = result.map fun r => r.fields.text) := by
  obtain ⟨rows, rest, hsteps, hrest, hpre, hall⟩ := exists_steps result env.failing
  obtain ⟨hcap, htexts, hwritten⟩ := readRows_text (hpre.length_le.trans hlimit)
    env.head.rest.next.2 rest hrest
  rw [← hsteps] at hcap htexts hwritten
  refine ⟨hcap, htexts.trans (hpre.map _), ?_⟩
  constructor
  · rintro ⟨hfail, hrows⟩
    have heq := hall.mpr hfail
    rw [heq] at hwritten
    exact hwritten.mp hrows
  · intro h
    have hlen := htexts.length_le
    rw [HistoryEnv.read] at h
    rw [h, List.length_map, List.length_map] at hlen
    have heq := hpre.eq_of_length_le hlen
    rw [heq] at hwritten
    exact ⟨hall.mp heq, hwritten.mpr h⟩

/-- Where no checked call fails, the reply is too short by what the others left out. -/
theorem HistoryEnv.length_written (hlimit : result.length ≤ historyLimit limit)
    (hhead : env.head.sb.text = historyHead) :
    ((env.written limit result).1.text ++ historyTail).length +
        (if itemsWritten (env.read limit result).1.reverse env.head.sb (env.read limit result).2
          then 0 else 1) +
        (if (env.read limit result).1.map StrBuf.text = result.map fun r => r.fields.text
          then 0 else 1) ≤
      (historyText result.reverse).length := by
  obtain ⟨hcap, htexts, -⟩ := @HistoryEnv.read_text limit result env hlimit
  have hrow : ∀ one ∈ (env.read limit result).1.reverse, ∃ r ∈ result, r.fields.text = one.text := by
    intro one hone
    exact List.mem_map.mp
      (htexts.subset (List.mem_map_of_mem (List.mem_reverse.mp hone)))
  have hwritten := writeItems_length (fun one hone => hcap one (List.mem_reverse.mp hone))
    (fun one hone => by
      obtain ⟨r, -, hr⟩ := hrow one hone
      rw [← hr]
      exact zero_notMem_rowText r)
    (fun one hone => by
      obtain ⟨r, -, hr⟩ := hrow one hone
      rw [← hr]
      exact rowText_ne_nil r) env.head.sb (env.read limit result).2
  have hshorter := joinItems_shorter htexts (by
    intro text htext
    obtain ⟨r, -, hr⟩ := List.mem_map.mp htext
    rw [← hr]
    exact rowText_ne_nil r)
  rw [hhead, List.map_reverse] at hwritten
  rw [historyText, List.map_reverse]
  simp only [List.length_append, HistoryEnv.written] at hwritten hshorter ⊢
  omega

/-- The reply holds all rows exactly if none of the unchecked calls fails. -/
theorem HistoryEnv.written_text_iff (hlimit : result.length ≤ historyLimit limit)
    (hhead : env.head.sb.text = historyHead) :
    (env.written limit result).1.text ++ historyTail = historyText result.reverse ↔
      env.UncheckedSucceed limit result := by
  obtain ⟨hcap, htexts, hread⟩ := @HistoryEnv.read_text limit result env hlimit
  constructor
  · intro h
    have hlen := HistoryEnv.length_written hlimit hhead
    rw [h] at hlen
    split at hlen
    · next hitems =>
      split at hlen
      · next hall =>
        obtain ⟨hfail, hrows⟩ := hread.mpr hall
        exact ⟨hfail, hrows, hitems⟩
      · omega
    · omega
  · rintro ⟨hfail, hrows, hitems⟩
    have hall := hread.mp ⟨hfail, hrows⟩
    have hwritten := writeItems_text (fun one hone => hcap one (List.mem_reverse.mp hone))
      (fun one hone => by
        obtain ⟨r, -, hr⟩ := List.mem_map.mp
          (htexts.subset (List.mem_map_of_mem (List.mem_reverse.mp hone)))
        rw [← hr]
        exact zero_notMem_rowText r) hitems
    rw [HistoryEnv.written, hwritten, hhead, List.map_reverse, hall, historyText,
      List.map_reverse]

/-- The request is answered with all rows or fails exactly if a checked call fails or no other
one does. -/
theorem HistoryEnv.allOrNothing_iff (hlimit : result.length ≤ historyLimit limit) :
    env.AllOrNothing limit result ↔
      env.CheckedFails limit result ∨ env.UncheckedSucceed limit result := by
  by_cases hchecked : env.CheckedFails limit result
  · refine iff_of_true ?_ (.inl hchecked)
    intro out hout
    obtain ⟨code, hcode⟩ := HistoryEnv.reply_of_checked hchecked
    rw [hcode] at hout
    cases hout
  · obtain ⟨hreply, hhead, hlast⟩ := HistoryEnv.reply_of_not_checked hchecked
    rw [or_iff_right hchecked, ← HistoryEnv.written_text_iff hlimit hhead, ← hlast]
    constructor
    · intro h
      exact congrArg Prod.fst (h _ hreply)
    · intro h out hout
      rw [hreply, h] at hout
      cases hout
      rfl

/-- Where no allocation and no step fails, no call does. -/
theorem HistoryEnv.all_succeed (hprep : env.prepared = true) (hstep : env.failing = none)
    (h : AllSucceed env.allocs) :
    ¬ env.CheckedFails limit result ∧ env.UncheckedSucceed limit result := by
  obtain ⟨hhead, hafter⟩ := h.sbCopy .empty (cstr historyHead)
  obtain ⟨hcalloc, hrest⟩ := hafter.next
  have hread : AllSucceed (env.read limit result).2 := hrest.readRows _ _
  have hwritten : AllSucceed (env.written limit result).2 := hread.writeItems _ _
  constructor
  · rintro (hn | hn | hn | hn)
    · rw [hprep] at hn
      cases hn
    · exact Bool.false_ne_true (hn.symm.trans hhead)
    · exact Bool.false_ne_true (hn.symm.trans hcalloc)
    · have hlast : (env.last limit result).ok = true := (hwritten.sbCopy _ _).1
      exact Bool.false_ne_true (hn.symm.trans hlast)
  · refine ⟨?_, hrest.rowsWritten _, hread.itemsWritten _ _⟩
    intro k hk
    rw [hstep] at hk
    cases hk

/-- The request fails, or is answered with a JSON document that has all rows of the result as
its items, oldest first. -/
def HistoryEnv.ReadsBack (limit : Int32) (result : List StateRow) (env : HistoryEnv) : Prop :=
  ∀ out, env.reply limit result = .ok out → ∃ v, parse out.1 = some v ∧
    HistoryReadsBack (historyFields result) v

theorem historyJson_text (result : List StateRow) :
    historyJson result = some (historyText result.reverse) := by
  rw [historyJson_eq, historyDoc_paste, historyText, historyFields]
  simp only [List.map_reverse, List.map_map]
  rfl

end

/-! ## The newest rows -/

theorem historyLimit_of_nonpos {limit : Int32} (h : limit ≤ 0) : historyLimit limit = 300 := by
  rw [historyLimit, if_pos h]
  rfl

theorem historyLimit_of_large {limit : Int32} (h : 5000 < limit) : historyLimit limit = 5000 := by
  have hpos : ¬ limit ≤ 0 := by
    intro hle
    exact absurd (Int32.lt_of_lt_of_le h hle) (by decide)
  simp only [historyLimit, if_neg hpos, if_pos h]
  rfl

theorem historyLimit_of_between {limit : Int32} (hpos : ¬ limit ≤ 0) (hle : ¬ 5000 < limit) :
    (historyLimit limit : Int) = limit.toInt := by
  simp only [historyLimit, if_neg hpos, if_neg hle]
  apply Int.toNat_of_nonneg
  rw [Int32.le_iff_toInt_le] at hpos
  exact Int.le_of_lt (Int.not_le.mp hpos)

/-- The rows are the newest of the table, oldest first. -/
structure Newest (table : StateTable) (n : Nat) (rows : List (Int64 × StateRow)) : Prop where
  length : rows.length = min n table.rows.length
  nodup : rows.Nodup
  stored : ∀ r ∈ rows, r ∈ table.rows
  newest : ∀ r ∈ rows, ∀ o ∈ table.rows, o ∉ rows → o.2.receivedAt ≤ r.2.receivedAt
  oldestFirst : rows.Pairwise fun a b => a.2.receivedAt ≤ b.2.receivedAt

theorem newest_reverse {table : StateTable} {n : Nat} {result : List (Int64 × StateRow)}
    (h : table.Selects n result) : Newest table n result.reverse where
  length := by rw [List.length_reverse, h.length]
  nodup := List.nodup_reverse.mpr (h.nodup table.distinct.of_map)
  stored r hr := h.subset (List.mem_reverse.mp hr)
  newest r hr o ho hout :=
    h.le_of_notMem (List.mem_reverse.mp hr) ho fun hin => hout (List.mem_reverse.mpr hin)
  oldestFirst := h.reverse_sorted

/-- **The reply has the newest rows, oldest first.** `result` is any answer that the `ORDER BY
received_at_ns DESC LIMIT` of the query may give on the table, and nothing fails: the statement
is prepared, every step gives its row, every allocation succeeds. The limit is 300 where it is
not positive, 5000 where it is greater, and itself otherwise. The reply is then the head of the
document, the texts of the newest rows of the table, as many as the limit allows and each once,
from the oldest to the newest with single commas in between, and its tail, with the length of
all of it. -/
theorem history_exact {table : StateTable} {limit : Int32} {result : List (Int64 × StateRow)}
    {env : HistoryEnv} (h : table.Selects (historyLimit limit) result)
    (hprep : env.prepared = true) (hstep : env.failing = none) (halloc : AllSucceed env.allocs) :
    (limit ≤ 0 → historyLimit limit = 300) ∧
    (5000 < limit → historyLimit limit = 5000) ∧
    (¬ limit ≤ 0 → ¬ 5000 < limit → (historyLimit limit : Int) = limit.toInt) ∧
    ∃ rows texts, Newest table (historyLimit limit) rows ∧
      List.Forall₂ (fun r text => appendRowAsSampleJson r.2 = some text) rows texts ∧
      env.reply limit (result.map Prod.snd) =
        .ok (historyHead ++ joinItems texts ++ historyTail,
          (historyHead ++ joinItems texts ++ historyTail).length) := by
  refine ⟨historyLimit_of_nonpos, historyLimit_of_large, historyLimit_of_between,
    result.reverse, result.reverse.map fun r => r.2.fields.text, newest_reverse h, ?_, ?_⟩
  · rw [List.forall₂_map_right_iff]
    exact List.forall₂_same.mpr fun r _ => appendRowAsSampleJson_eq r.2
  · obtain ⟨hchecked, hunchecked⟩ := @HistoryEnv.all_succeed limit
      (result.map Prod.snd) env hprep hstep halloc
    have hlimit : (result.map Prod.snd).length ≤ historyLimit limit := by
      rw [List.length_map]
      exact h.length_le
    have hall := (HistoryEnv.allOrNothing_iff hlimit).mpr (.inr hunchecked)
    have htext : historyText (result.map Prod.snd).reverse =
        historyHead ++ joinItems (result.reverse.map fun r => r.2.fields.text) ++ historyTail := by
      rw [historyText, ← List.map_reverse, List.map_map]
      rfl
    obtain ⟨hreply, -, -⟩ := HistoryEnv.reply_of_not_checked hchecked
    rw [← htext, hreply, hall _ hreply]

/-- **When a failure shortens the reply.** `env` says what fails: the prepare, one of the steps,
any of the allocations. The first equivalence: a request either fails or is answered with all
rows of the result exactly if one of the calls fails whose results are checked, or none of the
others does. The second asks of the answer besides that it can be read back, and that is so
exactly if moreover every row is clean. The calls that are not checked are a step before the
last row, the text of a row, and the appends of the second loop; a failure there gives a reply
with fewer items that looks complete. -/
theorem history_allOrNothing_iff {table : StateTable} {limit : Int32}
    {result : List (Int64 × StateRow)} (env : HistoryEnv)
    (h : table.Selects (historyLimit limit) result) :
    (env.AllOrNothing limit (result.map Prod.snd) ↔
      env.CheckedFails limit (result.map Prod.snd) ∨
        env.UncheckedSucceed limit (result.map Prod.snd)) ∧
    (env.AllOrNothing limit (result.map Prod.snd) ∧ env.ReadsBack limit (result.map Prod.snd) ↔
      env.CheckedFails limit (result.map Prod.snd) ∨
        env.UncheckedSucceed limit (result.map Prod.snd) ∧ ∀ r ∈ result, r.2.fields.Clean) := by
  have hlimit : (result.map Prod.snd).length ≤ historyLimit limit := by
    rw [List.length_map]
    exact h.length_le
  have hfirst := @HistoryEnv.allOrNothing_iff limit _ env hlimit
  have hclean : (∃ v, parse (historyText (result.map Prod.snd).reverse) = some v ∧
      HistoryReadsBack (historyFields (result.map Prod.snd)) v) ↔
      ∀ r ∈ result, r.2.fields.Clean := by
    have hrows := history_roundTrips_iff (result.map Prod.snd)
    rw [List.forall_mem_map, historyJson_text] at hrows
    rw [← hrows]
    constructor
    · rintro ⟨v, hparse, hback⟩
      exact ⟨_, v, rfl, hparse, hback⟩
    · rintro ⟨text, v, htext, hparse, hback⟩
      cases htext
      exact ⟨v, hparse, hback⟩
  refine ⟨hfirst, ?_⟩
  by_cases hchecked : env.CheckedFails limit (result.map Prod.snd)
  · obtain ⟨code, hcode⟩ := HistoryEnv.reply_of_checked hchecked
    refine iff_of_true ⟨hfirst.mpr (.inl hchecked), ?_⟩ (.inl hchecked)
    intro out hout
    rw [hcode] at hout
    cases hout
  · rw [or_iff_right hchecked] at hfirst ⊢
    rw [hfirst]
    refine and_congr_right fun hunchecked => ?_
    obtain ⟨hreply, -, -⟩ := HistoryEnv.reply_of_not_checked hchecked
    rw [hfirst.mpr hunchecked _ hreply] at hreply
    rw [← hclean]
    constructor
    · intro hback
      exact hback _ hreply
    · intro hread out hout
      rw [hreply] at hout
      cases hout
      exact hread

/-- The row of an empty message. -/
def emptyReceivedAt (ns : Int64) : StateRow :=
  insertState (telemetryStateOf PbTelemetryState.empty ns none)

def twoRows : StateTable where
  rows := [(1, emptyReceivedAt 5), (2, emptyReceivedAt 9)]
  distinct := by decide
  notNull := by
    intro r hr
    simp only [List.mem_cons, List.not_mem_nil, or_false] at hr
    rcases hr with rfl | rfl
    · exact ⟨5, rfl⟩
    · exact ⟨9, rfl⟩

theorem twoRows_selects : twoRows.Selects 1 [(2, emptyReceivedAt 9)] where
  length := rfl
  sorted := List.pairwise_singleton _ _
  chosen := by
    refine ⟨[(1, emptyReceivedAt 5)], List.Perm.swap _ _ _, ?_⟩
    intro a ha b hb
    rw [List.mem_singleton.mp ha, List.mem_singleton.mp hb]
    decide

/-- Three rows; the second was received last, and the first is the oldest. -/
def threeRows : StateTable where
  rows := [(1, emptyReceivedAt 5), (2, emptyReceivedAt 9), (3, emptyReceivedAt 7)]
  distinct := by decide
  notNull := by
    intro r hr
    simp only [List.mem_cons, List.not_mem_nil, or_false] at hr
    rcases hr with rfl | rfl | rfl
    · exact ⟨5, rfl⟩
    · exact ⟨9, rfl⟩
    · exact ⟨7, rfl⟩

theorem threeRows_selects :
    threeRows.Selects 2 [(2, emptyReceivedAt 9), (3, emptyReceivedAt 7)] where
  length := rfl
  sorted := by
    refine List.pairwise_pair.mpr ?_
    decide
  chosen := by
    refine ⟨[(1, emptyReceivedAt 5)], ?_, ?_⟩
    · exact @List.perm_append_comm _ [(2, emptyReceivedAt 9), (3, emptyReceivedAt 7)] _
    · intro a ha b hb
      rw [List.mem_singleton.mp hb]
      simp only [List.mem_cons, List.not_mem_nil, or_false] at ha
      rcases ha with rfl | rfl <;> decide

/-- The newest two are the third row and then the second: the first is older than both, and
the order is that of their times. -/
theorem Newest.threeRows_eq {rows : List (Int64 × StateRow)} (h : Newest threeRows 2 rows) :
    rows = [(3, emptyReceivedAt 7), (2, emptyReceivedAt 9)] := by
  obtain ⟨a, b, rfl⟩ := List.length_eq_two.mp h.length
  have hne : a ≠ b := fun heq => by simpa [heq] using h.nodup
  have horder : a.2.receivedAt ≤ b.2.receivedAt := by simpa using h.oldestFirst
  have hfirst : (1, emptyReceivedAt 5) ∉ [a, b] := by
    intro hin
    -- with a row that is older than the others, all three have to be there
    have hall : threeRows.rows ⊆ [a, b] := by
      intro o ho
      by_contra hout
      have hle := h.newest _ hin o ho hout
      simp only [threeRows, List.mem_cons, List.not_mem_nil, or_false] at ho
      rcases ho with rfl | rfl | rfl
      · exact hout hin
      · exact absurd hle (by decide)
      · exact absurd hle (by decide)
    have hlength := (threeRows.distinct.of_map.subperm hall).length_le
    exact absurd hlength (by simp [threeRows])
  have hab : ∀ r ∈ [a, b], r = (2, emptyReceivedAt 9) ∨ r = (3, emptyReceivedAt 7) := by
    intro r hr
    have hstored := h.stored r hr
    simp only [threeRows, List.mem_cons, List.not_mem_nil, or_false] at hstored
    refine hstored.resolve_left ?_
    rintro rfl
    exact hfirst hr
  rcases hab a (by simp) with rfl | rfl <;> rcases hab b (by simp) with rfl | rfl
  · exact absurd rfl hne
  · exact absurd horder (by decide)
  · rfl
  · exact absurd rfl hne

/-- The two newest rows of three, the older one first and a comma between them. -/
theorem history_exact_two : ∃ seven nine,
    appendRowAsSampleJson (emptyReceivedAt 7) = some seven ∧
    appendRowAsSampleJson (emptyReceivedAt 9) = some nine ∧
    (HistoryEnv.mk true none [true, true]).reply 2 [emptyReceivedAt 9, emptyReceivedAt 7] =
      .ok (historyHead ++ (seven ++ ascii "," ++ nine) ++ historyTail,
        (historyHead ++ (seven ++ ascii "," ++ nine) ++ historyTail).length) := by
  obtain ⟨-, -, -, rows, texts, hnewest, htexts, hreply⟩ :=
    @history_exact threeRows 2 _ ⟨true, none, [true, true]⟩ threeRows_selects rfl rfl
      (by simp [AllSucceed])
  rw [hnewest.threeRows_eq] at htexts
  obtain ⟨seven, rest, hseven, hrest, rfl⟩ := List.forall₂_cons_left_iff.mp htexts
  obtain ⟨nine, none, hnine, hnone, rfl⟩ := List.forall₂_cons_left_iff.mp hrest
  obtain rfl := List.forall₂_nil_left_iff.mp hnone
  exact ⟨seven, nine, hseven, hnine, hreply⟩

theorem history_allOrNothing_one :
    (HistoryEnv.mk true none []).AllOrNothing 1 [emptyReceivedAt 9] ↔
      (HistoryEnv.mk true none []).CheckedFails 1 [emptyReceivedAt 9] ∨
        (HistoryEnv.mk true none []).UncheckedSucceed 1 [emptyReceivedAt 9] :=
  (@history_allOrNothing_iff twoRows 1 _ ⟨true, none, []⟩ twoRows_selects).1

/-- A step that fails instead of giving the row: the reply is a history without items. -/
theorem history_loses_row : twoRows.Selects (historyLimit 1) [(2, emptyReceivedAt 9)] ∧
    (HistoryEnv.mk true (some 0) []).reply 1 [emptyReceivedAt 9] =
      .ok (historyHead ++ historyTail, 29) ∧
    ¬ (HistoryEnv.mk true (some 0) []).AllOrNothing 1 [emptyReceivedAt 9] := by
  have hreply : (HistoryEnv.mk true (some 0) []).reply 1 [emptyReceivedAt 9] =
      .ok (historyHead ++ historyTail, 29) := rfl
  refine ⟨twoRows_selects, hreply, ?_⟩
  intro h
  have hlen := congrArg (fun out => out.1.length) (h _ hreply)
  have hpos := List.length_pos_of_ne_nil (rowText_ne_nil (emptyReceivedAt 9))
  simp only [historyText, List.reverse_singleton, List.map_singleton, joinItems,
    List.length_append] at hlen
  omega

end TelemetryTestbed.Persistence

import TelemetryTestbed.Lib.Search
import TelemetryTestbed.Analysis.RunFiles

/-!
# Every log finds its own database

The names of a sweep are read back as they were given: `searchNumber` says where a
pattern finds its numeral. So every key of the index belongs to one run
(`stem_injective`), and the last resort can only meet a run of the same batch size
whose rate numeral the log's one continues. Equal numbers of different length are
then zeros.

The names are texts around two numerals, and a pattern stops where the digits stop, so each
numeral is found whole. The exception to the law is real: `0` and `00` are one number, the
last resort of the script compares numbers, and the name of the one run contains that of the
other.
-/

namespace TelemetryTestbed.Analysis

open Lib Lib.Regex

variable {b c a : UInt8} {s t text pre ext digits caps : Bytes} {q run : Run}

/-! ## Names of files -/

theorem basename_append (front : Bytes) {name : Bytes} (h : (47 : UInt8) ∉ name) :
    basename (front ++ 47 :: name) = name := by
  have hall : ∀ b ∈ name.reverse, decide (b ≠ 47) = true := fun b hb =>
    decide_eq_true fun h47 => h (h47 ▸ List.mem_reverse.mp hb)
  rw [basename, List.rtakeWhile, List.reverse_append, List.reverse_cons, List.append_assoc,
    List.takeWhile_append_of_pos hall, List.singleton_append,
    List.takeWhile_cons_of_neg (by decide), List.append_nil, List.reverse_reverse]

/-- The extension is what stands behind the last dot. -/
theorem splitextRoot_append {name ext : Bytes} (hext : (46 : UInt8) ∉ ext)
    (hname : ∃ b ∈ name, b ≠ 46) : splitextRoot (name ++ 46 :: ext) = name := by
  have hall : ∀ b ∈ ext.reverse, decide (b ≠ 46) = true := fun b hb =>
    decide_eq_true fun h46 => hext (h46 ▸ List.mem_reverse.mp hb)
  have hfront : (name ++ 46 :: ext).rdropWhile (fun b => b ≠ 46) = name ++ [46] := by
    rw [List.rdropWhile, List.reverse_append, List.reverse_cons, List.append_assoc,
      List.dropWhile_append_of_pos hall, List.singleton_append,
      List.dropWhile_cons_of_neg (by decide), List.reverse_cons, List.reverse_reverse]
  have hdots : ¬ name.all (fun b => b = 46) = true := by
    intro h
    obtain ⟨b, hb, hne⟩ := hname
    exact hne (of_decide_eq_true (List.all_eq_true.mp h b hb))
  rw [splitextRoot, hfront, List.dropLast_concat, if_neg hdots]

theorem isWord_of_isdigit (h : isdigit b = true) : isWord b = true := by
  rw [isWord, h]
  rfl

theorem mem_stem (h : b ∈ run.stem) :
    isdigit b = true ∨ b = 98 ∨ b = 95 ∨ b = 114 := by
  rw [Run.stem, List.cons_append, List.mem_cons, List.mem_append, List.mem_cons, List.mem_cons]
    at h
  obtain rfl | h | rfl | rfl | h := h
  · exact Or.inr (Or.inl rfl)
  · exact Or.inl (run.batch.isdigit b h)
  · exact Or.inr (Or.inr (Or.inl rfl))
  · exact Or.inr (Or.inr (Or.inr rfl))
  · exact Or.inl (run.rate.isdigit b h)

/-- What is no digit and none of the three letters is not in a stem. -/
theorem notMem_stem (h : isdigit b = false) (hb : b ≠ 98) (hr : b ≠ 114) (hbar : b ≠ 95) :
    b ∉ run.stem := by
  intro hmem
  obtain hdigit | rfl | rfl | rfl := mem_stem hmem
  · rw [h] at hdigit
    cases hdigit
  · exact hb rfl
  · exact hbar rfl
  · exact hr rfl

theorem notMem_digits (n : Numeral) (h : isdigit b = false) : b ∉ n.digits := by
  intro hmem
  rw [n.isdigit b hmem] at h
  cases h

/-- A name as the sweep gives it: a word, the stem of the run, an extension. -/
def fileName (pre : Bytes) (run : Run) (ext : Bytes) : Bytes := pre ++ 95 :: run.stem ++ 46 :: ext

theorem slash_notMem_fileName (hpre : (47 : UInt8) ∉ pre) (hext : (47 : UInt8) ∉ ext) :
    (47 : UInt8) ∉ fileName pre run ext := by
  have hstem : (47 : UInt8) ∉ run.stem := notMem_stem rfl (by decide) (by decide) (by decide)
  rw [fileName, List.mem_append, List.mem_append, List.mem_cons, List.mem_cons]
  rintro ((h | h | h) | h | h)
  · exact hpre h
  · cases h
  · exact hstem h
  · cases h
  · exact hext h

theorem basename_dbPath (root : Bytes) (run : Run) :
    basename (dbPath root run) = fileName (ascii "run") run (ascii "db") := by
  have hpath : dbPath root run =
      (root ++ ascii "/db") ++ 47 :: fileName (ascii "run") run (ascii "db") := by
    rw [dbPath, fileName, show ascii "/db/run_" = ascii "/db" ++ 47 :: (ascii "run" ++ [95]) from rfl,
      show ascii ".db" = 46 :: ascii "db" from rfl]
    simp only [List.append_assoc, List.cons_append, List.nil_append]
  rw [hpath, basename_append _ (slash_notMem_fileName (by decide) (by decide))]

theorem basename_logPath (root : Bytes) (run : Run) :
    basename (logPath root run) = fileName (ascii "gw") run (ascii "log") := by
  have hpath : logPath root run =
      (root ++ ascii "/logs") ++ 47 :: fileName (ascii "gw") run (ascii "log") := by
    rw [logPath, fileName,
      show ascii "/logs/gw_" = ascii "/logs" ++ 47 :: (ascii "gw" ++ [95]) from rfl,
      show ascii ".log" = 46 :: ascii "log" from rfl]
    simp only [List.append_assoc, List.cons_append, List.nil_append]
  rw [hpath, basename_append _ (slash_notMem_fileName (by decide) (by decide))]

theorem splitextRoot_fileName (hext : (46 : UInt8) ∉ ext) :
    splitextRoot (fileName pre run ext) = pre ++ 95 :: run.stem := by
  apply splitextRoot_append hext
  exact ⟨95, List.mem_append_right pre List.mem_cons_self, by decide⟩

theorem runIdFromName_dbPath (root : Bytes) (run : Run) :
    runIdFromName (dbPath root run) = ascii "run_" ++ run.stem := by
  rw [runIdFromName, basename_dbPath, splitextRoot_fileName (by decide)]
  rfl

theorem runIdFromName_logPath (root : Bytes) (run : Run) :
    runIdFromName (logPath root run) = ascii "gw_" ++ run.stem := by
  rw [runIdFromName, basename_logPath, splitextRoot_fileName (by decide)]
  rfl

/-! ## What the patterns find -/

variable {prev : Option UInt8} {found : Captures} {α : Type} {k : Cursor → Captures → Option α}

/-- Inside a word, with no underscore behind, there is no edge. -/
theorem run_edge_neg (ha : isWord a = true) (hb : isWord b = true) (hbar : b ≠ 95) :
    edge.run ⟨some a, b :: text⟩ found k = none := by
  have hinside : Cursor.atBoundary ⟨some a, b :: text⟩ = false := by
    simp only [Cursor.atBoundary, Option.any_some, List.head?_cons, ha, hb, bne_self_eq_false]
  have hbyte : ∀ d, (b :: text).head? = some d → decide (d = 95) = false := by
    rintro d hd
    obtain rfl := Option.some.inj hd
    exact decide_eq_false hbar
  rw [edge, run_alt_of_none (run_boundary_neg hinside), run_byte_neg hbyte]

/-- Behind a word the underscore is the edge. -/
theorem run_edge_bar (ha : isWord a = true) :
    edge.run ⟨some a, 95 :: text⟩ found k = k ⟨some 95, text⟩ found := by
  have hinside : Cursor.atBoundary ⟨some a, 95 :: text⟩ = false := by
    simp only [Cursor.atBoundary, Option.any_some, List.head?_cons, ha]
    rfl
  rw [edge, run_alt_of_none (run_boundary_neg hinside), run_byte_pos rfl]

/-- Behind a numeral an underscore or a dot is an edge. -/
theorem run_edge_stop (ha : isWord a = true) (hb : b = 95 ∨ b = 46) :
    edge.run ⟨some a, b :: text⟩ found (fun _ caps => some caps) = some found := by
  obtain rfl | rfl := hb
  · exact run_edge_bar ha
  · have hstop : Cursor.atBoundary ⟨some a, 46 :: text⟩ = true := by
      simp only [Cursor.atBoundary, Option.any_some, List.head?_cons, ha]
      rfl
    apply run_alt_of_some
    exact run_boundary_pos hstop

variable {short long rest : Bytes}

theorem run_numbered (ha : isWord a = true) (hne : digits ≠ [])
    (hdigits : ∀ d ∈ digits, isdigit d = true) (hb : b = 95 ∨ b = 46) :
    (numbered [c] long).run ⟨some a, 95 :: c :: digits ++ b :: text⟩ [] (fun _ caps => some caps) =
      some [([49], digits)] := by
  have hletter : ∀ d, sameLetter d d = true := fun d => decide_eq_true rfl
  have hstop : ∀ d, (b :: text).head? = some d → isdigit d = false := by
    rintro d hd
    obtain rfl := Option.some.inj hd
    obtain rfl | rfl := hb
    · rfl
    · rfl
  rw [numbered, run_cat, List.cons_append, run_edge_bar ha, run_cat, List.cons_append]
  apply run_alt_of_some
  rw [show c :: (digits ++ b :: text) = [c] ++ (digits ++ b :: text) from rfl, run_lit hletter,
    run_cat]
  apply run_group_many hne hdigits hstop
  obtain ⟨d, hd, hlast⟩ := last_of_ne_nil (last (some 95) [c]) hne
  rw [hlast]
  exact run_edge_stop (isWord_of_isdigit (hdigits d hd)) hb

/-- Behind the underscore another letter. -/
theorem run_numbered_neg (ha : isWord a = true) (hb : sameLetter c b = false) :
    (numbered [c] (c :: rest)).run ⟨some a, 95 :: b :: text⟩ found k = none := by
  have hother : ∀ d, (b :: text).head? = some d → sameLetter c d = false := by
    rintro d hd
    obtain rfl := Option.some.inj hd
    exact hb
  rw [numbered, run_cat, run_edge_bar ha, run_cat, run_alt_of_none (run_lit_neg hother []),
    run_lit_neg hother rest]

/-- No match begins inside a word without an underscore. -/
theorem searchFrom_inside {front : Bytes} (ha : isWord a = true)
    (hfront : ∀ b ∈ front, isWord b = true ∧ b ≠ 95) :
    ∃ a', isWord a' = true ∧ (numbered short long).searchFrom (some a) (front ++ text) =
      (numbered short long).searchFrom (some a') text := by
  induction front generalizing a with
  | nil => exact ⟨a, ha, rfl⟩
  | cons b front ih =>
    obtain ⟨hb, hbar⟩ := hfront b List.mem_cons_self
    obtain ⟨a', ha', hsearch⟩ := ih hb fun d hd => hfront d (List.mem_cons_of_mem b hd)
    refine ⟨a', ha', ?_⟩
    rw [List.cons_append, searchFrom, ← hsearch, numbered, run_cat, run_edge_neg ha hb hbar,
      Option.none_or]

theorem isWord_digits (n : Numeral) : ∀ b ∈ n.digits, isWord b = true ∧ b ≠ 95 := by
  intro b hb
  have hdigit := n.isdigit b hb
  refine ⟨isWord_of_isdigit hdigit, ?_⟩
  rintro rfl
  cases hdigit

theorem isWord_of_all {front : Bytes} (h : front.all (fun b => isWord b && b != 95) = true) :
    ∀ b ∈ front, isWord b = true ∧ b ≠ 95 := by
  intro b hb
  have hboth := List.all_eq_true.mp h b hb
  rwa [Bool.and_eq_true, bne_iff_ne] at hboth

/-- The pattern begins no match at the start of the name, and finds the letter behind it. -/
structure Opens (pattern : Regex) (c : UInt8) (pre : Bytes) : Prop where
  isWord : ∀ b ∈ c :: pre, isWord b = true ∧ b ≠ 95
  start : ∀ text, pattern.run ⟨none, c :: pre ++ text⟩ [] (fun _ caps => some caps) = none

theorem search_opens (h : Opens (numbered short long) c pre) (text : Bytes) :
    ∃ a, isWord a = true ∧ (numbered short long).search (c :: pre ++ text) =
      (numbered short long).searchFrom (some a) text := by
  obtain ⟨hc, -⟩ := h.isWord c List.mem_cons_self
  obtain ⟨a, ha, hsearch⟩ := @searchFrom_inside c text short long pre hc fun b hb =>
    h.isWord b (List.mem_cons_of_mem c hb)
  refine ⟨a, ha, ?_⟩
  rw [search, List.cons_append, searchFrom, ← List.cons_append, h.start, Option.none_or, hsearch]

theorem fileName_eq (pre : Bytes) (run : Run) (ext : Bytes) :
    fileName pre run ext =
      pre ++ 95 :: 98 :: run.batch.digits ++ 95 :: 114 :: run.rate.digits ++ 46 :: ext := by
  simp only [fileName, Run.stem, List.append_assoc, List.cons_append]

theorem inferNumber_batch (h : Opens batchPattern c pre) (ext : Bytes) :
    inferNumber batchPattern (fileName (c :: pre) run ext) = some run.batch.value := by
  obtain ⟨a, ha, hsearch⟩ := search_opens h
    (95 :: 98 :: run.batch.digits ++ 95 :: (114 :: run.rate.digits ++ 46 :: ext))
  have hfound := searchFrom_of_some (@run_numbered 95 98 a (114 :: run.rate.digits ++ 46 :: ext)
    run.batch.digits (ascii "batch") ha run.batch.ne_nil run.batch.isdigit (Or.inl rfl))
  have hboth : batchPattern.search (fileName (c :: pre) run ext) =
      some [([49], run.batch.digits)] := by
    rw [fileName_eq, List.append_assoc, List.append_assoc]
    exact hsearch.trans hfound
  rw [inferNumber, hboth]
  rfl

theorem inferNumber_rate (h : Opens ratePattern c pre) (ext : Bytes) :
    inferNumber ratePattern (fileName (c :: pre) run ext) = some run.rate.value := by
  obtain ⟨a, ha, hsearch⟩ := search_opens h
    (95 :: 98 :: run.batch.digits ++ 95 :: (114 :: run.rate.digits ++ 46 :: ext))
  have hinside : ∀ b ∈ 98 :: run.batch.digits, isWord b = true ∧ b ≠ 95 := by
    intro b hb
    rcases List.mem_cons.mp hb with rfl | hb
    · exact ⟨rfl, by decide⟩
    · exact isWord_digits run.batch b hb
  -- the underscore in front of the batch size opens nothing
  have hskip : ratePattern.searchFrom (some a)
        (95 :: 98 :: run.batch.digits ++ 95 :: (114 :: run.rate.digits ++ 46 :: ext)) =
      ratePattern.searchFrom (some 95)
        (98 :: run.batch.digits ++ 95 :: (114 :: run.rate.digits ++ 46 :: ext)) := by
    rw [List.cons_append, searchFrom, List.cons_append, ratePattern, show ascii "r" = [114] from rfl,
      show ascii "rate" = 114 :: ascii "ate" from rfl, run_numbered_neg ha rfl, Option.none_or]
  obtain ⟨a', ha', hbatch⟩ := @searchFrom_inside 95
    (95 :: (114 :: run.rate.digits ++ 46 :: ext)) (ascii "r") (ascii "rate") _ rfl hinside
  have hfound := searchFrom_of_some (@run_numbered 46 114 a' ext
    run.rate.digits (ascii "rate") ha' run.rate.ne_nil run.rate.isdigit (Or.inr rfl))
  have hboth : ratePattern.search (fileName (c :: pre) run ext) =
      some [([49], run.rate.digits)] := by
    rw [fileName_eq, List.append_assoc, List.append_assoc]
    exact hsearch.trans (hskip.trans (hbatch.trans hfound))
  rw [inferNumber, hboth]
  rfl

theorem inferConfigFromName_dbPath (root : Bytes) (run : Run) :
    inferConfigFromName (dbPath root run) = (some run.batch.value, some run.rate.value) := by
  have hword : ∀ b ∈ ascii "run", isWord b = true ∧ b ≠ 95 := isWord_of_all rfl
  have hbatch : Opens batchPattern 114 (ascii "un") := ⟨hword, fun _ => rfl⟩
  have hrate : Opens ratePattern 114 (ascii "un") := ⟨hword, fun _ => rfl⟩
  have hname : ascii "run" = 114 :: ascii "un" := rfl
  rw [inferConfigFromName, basename_dbPath, hname, inferNumber_batch hbatch,
    inferNumber_rate hrate]

theorem inferConfigFromName_logPath (root : Bytes) (run : Run) :
    inferConfigFromName (logPath root run) = (some run.batch.value, some run.rate.value) := by
  have hword : ∀ b ∈ ascii "gw", isWord b = true ∧ b ≠ 95 := isWord_of_all rfl
  have hbatch : Opens batchPattern 103 (ascii "w") := ⟨hword, fun _ => rfl⟩
  have hrate : Opens ratePattern 103 (ascii "w") := ⟨hword, fun _ => rfl⟩
  have hname : ascii "gw" = 103 :: ascii "w" := rfl
  rw [inferConfigFromName, basename_logPath, hname, inferNumber_batch hbatch,
    inferNumber_rate hrate]

/-! ## The index -/

theorem stem_prefix_iff : q.stem <+: run.stem ↔
    q.batch = run.batch ∧ q.rate.digits <+: run.rate.digits := by
  have hbar : ∀ n : Numeral, (95 : UInt8) ∉ n.digits := fun n => notMem_digits n rfl
  have hnum : ∀ m n : Numeral, m.digits = n.digits ↔ m = n := by
    rintro ⟨m, _, _⟩ ⟨n, _, _⟩
    rw [Numeral.mk.injEq]
  simp only [Run.stem, List.cons_append, List.cons_prefix_cons, true_and,
    append_cons_prefix_iff (hbar q.batch) (hbar run.batch), hnum]

theorem stem_injective (h : q.stem = run.stem) : q = run := by
  have hleft : q.stem <+: run.stem := by
    rw [h]
  have hright : run.stem <+: q.stem := by
    rw [h]
  obtain ⟨hbatch, hrate⟩ := stem_prefix_iff.mp hleft
  obtain ⟨-, hrate'⟩ := stem_prefix_iff.mp hright
  have hdigits := List.IsPrefix.eq_of_length_le hrate hrate'.length_le
  obtain ⟨batch, ⟨rate, _, _⟩⟩ := q
  obtain ⟨batch', ⟨rate', _, _⟩⟩ := run
  simp only at hbatch hdigits
  subst hbatch hdigits
  rfl

/-- The two keys of a database. -/
def runItems (root : Bytes) (q : Run) : List (DbKey × Bytes) :=
  [((some q.batch.value, some q.rate.value, ascii "run_" ++ q.stem), dbPath root q),
    ((some q.batch.value, some q.rate.value, q.stem), dbPath root q)]

theorem removeStart_run (run : Run) :
    (eitherPrefix (ascii "run_") (ascii "db_")).removeStart (ascii "run_" ++ run.stem) =
      run.stem := rfl

theorem removeStart_gw (run : Run) :
    (eitherPrefix (ascii "gw_") (ascii "log_")).removeStart (ascii "gw_" ++ run.stem) =
      run.stem := rfl

theorem indexDbs_eq (root : Bytes) (present : List Run) :
    indexDbs (present.map (dbPath root)) = Dict.ofItems (present.flatMap (runItems root)) := by
  rw [indexDbs, Dict.ofItems, List.foldl_map, List.foldl_flatMap]
  congr 1
  funext idx q
  rw [indexDb, runIdFromName_dbPath, inferConfigFromName_dbPath, runItems]
  dsimp only
  rw [removeStart_run]
  rfl

/-- An item of the index, and the run it belongs to. -/
theorem mem_runItems {item : DbKey × Bytes} {root : Bytes} {present : List Run}
    (h : item ∈ present.flatMap (runItems root)) :
    ∃ q ∈ present, item.2 = dbPath root q ∧ item.1.1 = some q.batch.value ∧
      item.1.2.1 = some q.rate.value ∧
      (item.1.2.2 = ascii "run_" ++ q.stem ∨ item.1.2.2 = q.stem) := by
  obtain ⟨q, hq, hitem⟩ := List.mem_flatMap.mp h
  rw [runItems, List.mem_cons, List.mem_singleton] at hitem
  refine ⟨q, hq, ?_⟩
  obtain rfl | rfl := hitem
  · exact ⟨rfl, rfl, rfl, Or.inl rfl⟩
  · exact ⟨rfl, rfl, rfl, Or.inr rfl⟩

/-- The first letter tells the two keys of a database apart. -/
theorem run_stem_ne (q run : Run) : ascii "run_" ++ q.stem ≠ run.stem := by
  intro h
  exact absurd (List.cons.inj h).1 (by decide)

theorem agree_runItems (root : Bytes) (present : List Run) :
    Dict.Agree (present.flatMap (runItems root)) := by
  intro i hi j hj hkey
  obtain ⟨q, -, hdb, -, -, hname⟩ := mem_runItems hi
  obtain ⟨q', -, hdb', -, -, hname'⟩ := mem_runItems hj
  rw [hdb, hdb']
  rw [hkey] at hname
  have hstem : q.stem = q'.stem := by
    obtain h | h := hname
    · obtain h' | h' := hname'
      · exact List.append_cancel_left (h.symm.trans h')
      · exact absurd (h.symm.trans h') (run_stem_ne q q')
    · obtain h' | h' := hname'
      · exact absurd (h'.symm.trans h) (run_stem_ne q' q)
      · exact h.symm.trans h'
  rw [stem_injective hstem]

/-! ## The database of a log -/

/-- The keys with a name of the log's own, or without one of the numbers, are in no index. -/
theorem get?_index_none {root : Bytes} {present : List Run} {key : DbKey}
    (h : key.1 = none ∨ key.2.1 = none ∨ key.2.2 = ascii "gw_" ++ run.stem) :
    (Dict.ofItems (present.flatMap (runItems root))).get? key = none := by
  rw [Dict.get?_ofItems (agree_runItems root present), Option.map_eq_none_iff,
    List.find?_eq_none]
  intro item hitem hkey
  obtain rfl := of_decide_eq_true hkey
  obtain ⟨q, -, -, hbatch, hrate, hname⟩ := mem_runItems hitem
  obtain h | h | h := h
  · rw [h] at hbatch
    cases hbatch
  · rw [h] at hrate
    cases hrate
  · rw [h] at hname
    obtain hname | hname := hname
    · exact absurd (List.cons.inj hname).1 (by decide)
    · exact absurd (List.cons.inj hname).1 (by decide)

theorem get?_index_stem (root : Bytes) (present : List Run) (run : Run) :
    (Dict.ofItems (present.flatMap (runItems root))).get?
        (some run.batch.value, some run.rate.value, run.stem) =
      if run ∈ present then some (dbPath root run) else none := by
  by_cases hrun : run ∈ present
  · rw [if_pos hrun]
    apply Dict.get?_of_mem (agree_runItems root present)
    exact List.mem_flatMap.mpr ⟨run, hrun, List.mem_cons_of_mem _ List.mem_cons_self⟩
  · rw [if_neg hrun, Dict.get?_ofItems (agree_runItems root present), Option.map_eq_none_iff,
      List.find?_eq_none]
    intro item hitem hkey
    obtain ⟨q, hq, -, -, -, hname⟩ := mem_runItems hitem
    rw [of_decide_eq_true hkey] at hname
    obtain hname | hname := hname
    · exact run_stem_ne q run hname.symm
    · exact hrun (stem_injective hname ▸ hq)

theorem agrees_some (m n : Nat) : agrees (some m) (some n) = true ↔ m = n := by
  simp only [agrees, Option.isSome_some, Bool.and_self, Bool.true_and, Bool.not_eq_true',
    bne_eq_false_iff_eq, Option.some.injEq]

/-- The longer key of a database is in no name of a log, and no name of a log in a key. -/
theorem weakMatch_run (b r b' r' : Option Nat) (q run : Run) (db : Bytes) :
    weakMatch (ascii "gw_" ++ run.stem) b r ((b', r', ascii "run_" ++ q.stem), db) = false := by
  have hu : (117 : UInt8) ∉ ascii "gw_" ++ run.stem := by
    rw [List.mem_append, not_or]
    exact ⟨by decide, notMem_stem rfl (by decide) (by decide) (by decide)⟩
  have hg : (103 : UInt8) ∉ ascii "run_" ++ q.stem := by
    rw [List.mem_append, not_or]
    exact ⟨by decide, notMem_stem rfl (by decide) (by decide) (by decide)⟩
  have hleft : ¬ ascii "run_" ++ q.stem <:+: ascii "gw_" ++ run.stem := fun h =>
    hu (h.subset (List.mem_append_left _ (by decide)))
  have hright : ¬ ascii "gw_" ++ run.stem <:+: ascii "run_" ++ q.stem := fun h =>
    hg (h.subset (List.mem_append_left _ (by decide)))
  simp only [weakMatch, hleft, hright, decide_false, Bool.or_self, Bool.and_false, Bool.false_and]

theorem stem_infix_iff : q.stem <:+: ascii "gw_" ++ run.stem ↔ q.stem <+: run.stem := by
  have hb : (98 : UInt8) ∉ run.batch.digits ++ 95 :: 114 :: run.rate.digits := by
    rw [List.mem_append, List.mem_cons, List.mem_cons]
    rintro (h | h | h | h)
    · exact notMem_digits run.batch rfl h
    · cases h
    · cases h
    · exact notMem_digits run.rate rfl h
  constructor
  · intro h
    have hin : q.stem <:+: run.stem := infix_of_infix_append (by decide) h
    rw [Run.stem, Run.stem, List.cons_append, List.cons_append, List.infix_cons_iff] at hin
    rw [Run.stem, Run.stem, List.cons_append, List.cons_append]
    obtain hpre | hin := hin
    · exact hpre
    · exact absurd (hin.subset List.mem_cons_self) hb
  · intro h
    exact h.isInfix.trans (List.suffix_append (ascii "gw_") run.stem).isInfix

/-- The rate numeral of the log continues that of the database, and stands for the same
number. -/
def Continues (q run : Run) : Prop :=
  q.batch = run.batch ∧ q.rate.digits <+: run.rate.digits ∧ q.rate.value = run.rate.value

theorem weakMatch_stem (db : Bytes) :
    weakMatch (ascii "gw_" ++ run.stem) (some run.batch.value) (some run.rate.value)
      ((some q.batch.value, some q.rate.value, q.stem), db) = true ↔ Continues q run := by
  have hne : q.stem ≠ [] := List.cons_ne_nil _ _
  have hright : ¬ ascii "gw_" ++ run.stem <:+: q.stem := by
    intro h
    have hg : (103 : UInt8) ∈ q.stem := h.subset (List.mem_append_left _ (by decide))
    exact notMem_stem rfl (by decide) (by decide) (by decide) hg
  simp only [weakMatch, Bool.and_eq_true, Bool.or_eq_true, decide_eq_true_eq, agrees_some, hne,
    hright, or_false, stem_infix_iff, stem_prefix_iff, Continues, ne_eq, not_false_eq_true,
    true_and]
  constructor
  · rintro ⟨⟨⟨hbatch, hrate⟩, -⟩, hvalue⟩
    exact ⟨hbatch, hrate, hvalue.symm⟩
  · rintro ⟨hbatch, hrate, hvalue⟩
    exact ⟨⟨⟨hbatch, hrate⟩, by rw [hbatch]⟩, hvalue.symm⟩

/-- A numeral of zeros, and a longer one. -/
def ShorterZeros (m n : Numeral) : Prop :=
  (∀ d ∈ m.digits, d = 48) ∧ (∀ d ∈ n.digits, d = 48) ∧ m.digits.length < n.digits.length

instance ShorterZeros.decidable (m n : Numeral) : Decidable (ShorterZeros m n) :=
  have hm : Decidable (∀ d ∈ m.digits, d = 48) := List.decidableBAll (fun d => d = 48) _
  have hn : Decidable (∀ d ∈ n.digits, d = 48) := List.decidableBAll (fun d => d = 48) _
  @instDecidableAnd _ _ hm (@instDecidableAnd _ _ hn (Nat.decLt _ _))

/-- A longer numeral of the same number is there only for zero. -/
theorem continues_iff (h : q ≠ run) :
    Continues q run ↔ q.batch = run.batch ∧ ShorterZeros q.rate run.rate := by
  constructor
  · rintro ⟨hbatch, ⟨more, hmore⟩, hvalue⟩
    have hne : more ≠ [] := by
      rintro rfl
      apply h
      apply stem_injective
      rw [Run.stem, Run.stem, hbatch, ← hmore, List.append_nil]
    have hsum : run.rate.value = q.rate.value * 10 ^ more.length + ofDigits10 more := by
      rw [Numeral.value, ← hmore, ofDigits10_append]
      rfl
    have hten : 10 ^ 1 ≤ 10 ^ more.length :=
      Nat.pow_le_pow_right (by decide) (List.length_pos_of_ne_nil hne)
    have hzero : q.rate.value = 0 := by
      have hmul := Nat.mul_le_mul_left q.rate.value hten
      omega
    refine ⟨hbatch, (ofDigits10_eq_zero_iff q.rate.isdigit).mp hzero,
      (ofDigits10_eq_zero_iff run.rate.isdigit).mp (hvalue.symm.trans hzero), ?_⟩
    rw [← hmore, List.length_append]
    exact Nat.lt_add_of_pos_right (List.length_pos_of_ne_nil hne)
  · rintro ⟨hbatch, hq, hrun, hlt⟩
    have hvalue : ∀ n : Numeral, (∀ d ∈ n.digits, d = 48) → n.value = 0 := fun n hn =>
      (ofDigits10_eq_zero_iff n.isdigit).mpr hn
    refine ⟨hbatch, ?_, (hvalue _ hq).trans (hvalue _ hrun).symm⟩
    rw [List.eq_replicate_of_mem hq, List.eq_replicate_of_mem hrun]
    exact ⟨List.replicate (run.rate.digits.length - q.rate.digits.length) 48, by
      rw [List.replicate_append_replicate, Nat.add_sub_cancel' hlt.le]⟩

/-- The last resort over the whole index, where the log's own database is missing. -/
theorem find?_weakMatch (root : Bytes) {present : List Run} (h : run ∉ present) :
    ((present.flatMap (runItems root)).find? (weakMatch (ascii "gw_" ++ run.stem)
        (some run.batch.value) (some run.rate.value))).map Prod.snd =
      (present.find? fun q => q.batch = run.batch ∧ ShorterZeros q.rate run.rate).map
        (dbPath root) := by
  induction present with
  | nil => rfl
  | cons q present ih =>
    obtain ⟨hq, hpresent⟩ := not_or.mp (mt List.mem_cons.mpr h)
    have hlong := weakMatch_run (some run.batch.value) (some run.rate.value)
      (some q.batch.value) (some q.rate.value) q run (dbPath root q)
    rw [List.flatMap_cons, List.find?_append, runItems,
      List.find?_cons_of_neg (by rw [hlong]; exact Bool.false_ne_true)]
    have hshort := @weakMatch_stem q run (dbPath root q)
    rw [continues_iff (Ne.symm hq)] at hshort
    by_cases hzeros : q.batch = run.batch ∧ ShorterZeros q.rate run.rate
    · rw [List.find?_cons_of_pos (hshort.mpr hzeros), Option.some_or,
        List.find?_cons, decide_eq_true hzeros]
      rfl
    · rw [List.find?_cons_of_neg (mt hshort.mp hzeros), List.find?_nil, Option.none_or,
        List.find?_cons, decide_eq_false hzeros]
      exact ih hpresent

/-- **A log finds its own database.** The databases of the runs in `present`, in the order in
which they are found, make the index; the log is that of `run`. If the database of the run is
there it is the one found. If it is not there, none is found, with one exception that the last
resort of the script makes: a log whose rate is a numeral of zeros takes the first database of
its batch size whose rate is zeros too and has fewer of them. -/
theorem findMatchingDb_indexDbs (root : Bytes) (present : List Run) (run : Run) :
    findMatchingDb (logPath root run) (indexDbs (present.map (dbPath root))) =
      if run ∈ present then some (dbPath root run)
      else (present.find? fun q => q.batch = run.batch ∧ ShorterZeros q.rate run.rate).map
        (dbPath root) := by
  have hname := @get?_index_none run root present
  have hbatch : ∀ r name, (Dict.ofItems (present.flatMap (runItems root))).get? (none, r, name) =
      none := fun _ _ => hname (Or.inl rfl)
  have hrate : ∀ b name, (Dict.ofItems (present.flatMap (runItems root))).get? (b, none, name) =
      none := fun _ _ => hname (Or.inr (Or.inl rfl))
  rw [findMatchingDb, runIdFromName_logPath, inferConfigFromName_logPath, indexDbs_eq]
  dsimp only
  rw [removeStart_gw, List.findSome?_cons, hname (Or.inr (Or.inr rfl)), List.findSome?_cons,
    get?_index_stem]
  by_cases hrun : run ∈ present
  · rw [if_pos hrun, if_pos hrun]
  · rw [if_neg hrun, if_neg hrun]
    dsimp only
    simp only [List.findSome?_cons, List.findSome?_nil, hbatch, hrate]
    rw [(Dict.find?_ofItems (agree_runItems root present) _).1, find?_weakMatch root hrun]

/-- A rate written `00` takes the database of the rate `0`. -/
theorem findMatchingDb_zeros : ¬ ∀ (root : Bytes) (present : List Run) (run : Run),
    findMatchingDb (logPath root run) (indexDbs (present.map (dbPath root))) =
      if run ∈ present then some (dbPath root run) else none := by
  let one : Numeral := ⟨[49], List.cons_ne_nil _ _, List.all_eq_true.mp rfl⟩
  let zero : Numeral := ⟨[48], List.cons_ne_nil _ _, List.all_eq_true.mp rfl⟩
  let zeros : Numeral := ⟨[48, 48], List.cons_ne_nil _ _, List.all_eq_true.mp rfl⟩
  intro h
  have hlog := h (ascii "experiments") [⟨one, zero⟩] ⟨one, zeros⟩
  exact absurd hlog (by decide)

end TelemetryTestbed.Analysis

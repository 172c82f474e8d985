import TelemetryTestbed.Laws.WebSocket.Headers
import TelemetryTestbed.WebSocket.HeaderScan

/-!
# The header lookup finds the first line of that name

A head is lines with a CRLF behind each, an empty line, and whatever comes then
(`IsHead`). Its lines are what the loop goes through, one a round, so the lookup is a
search in the list of lines (`lookup`), and the offsets it answers lie in the line found.

The code advances by `strstr` to the next CRLF and compares the name without regard to case.
The induction is on the lines, with the offset of the current one in front, and the two
outcomes of a comparison are its cases. A name with a colon in it could match across the
colon, which is why the law asks for one without.
-/

namespace TelemetryTestbed.WebSocket

open TelemetryTestbed.Lib

variable {head name line body rest pre value : Bytes} {lines : List Bytes} {n v lineEnd : Nat}

/-! ## Heads -/

/-- The lines up to the first empty one, and what is behind it. A line has no CRLF in it and is
not empty, so a text is a head in one way only. -/
structure IsHead (head : Bytes) (lines : List Bytes) (body : Bytes) : Prop where
  head_eq : head = (lines.map (· ++ crlf)).flatten ++ (crlf ++ body)
  isLine : ∀ line ∈ lines, line ≠ [] ∧ ¬ crlf <:+: line

/-- The first CRLF behind a line is the one that ends it. -/
theorem strstr_line (h : ¬ crlf <:+: line) (t : Bytes) :
    strstr (line ++ (crlf ++ t)) crlf = some (crlf ++ t) := by
  apply strstr_of_first (List.prefix_append crlf t)
  intro f b hfb hb
  by_contra hlt
  obtain ⟨c, hf⟩ : ∃ c, line = f ++ c := by
    obtain ⟨c, hc, _⟩ | ⟨c, hc, _⟩ := List.append_eq_append_iff.mp hfb
    · rw [hc, List.length_append] at hlt
      omega
    · exact ⟨c, hc⟩
  subst hf
  rw [List.append_assoc] at hfb
  have hbc : c ++ (crlf ++ t) = b := List.append_cancel_left hfb
  rw [← hbc] at hb
  -- the CRLF would start in the line, and so lie in it
  match c, hlt, hb with
  | [], hlt, _ => exact hlt (by simp)
  | [a], _, hb => simp [crlf, List.cons_prefix_cons] at hb
  | a :: a' :: c, _, hb =>
    apply h
    simp only [crlf, List.cons_append, List.cons_prefix_cons] at hb
    obtain ⟨rfl, rfl, _⟩ := hb
    exact ⟨f, c, by simp [crlf]⟩

/-- A text that contains an empty line, or starts with one, is a head. -/
theorem exists_isHead (h : crlf <+: head ∨ crlf ++ crlf <:+: head) :
    ∃ lines body, IsHead head lines body := by
  induction hn : head.length using Nat.strong_induction_on generalizing head with
  | _ n ih =>
    have hcrlf : crlf <:+: head := by
      rcases h with h | h
      · exact h.isInfix
      · exact (List.prefix_append crlf crlf).isInfix.trans h
    obtain ⟨e, he⟩ := Option.isSome_iff_exists.mp (isSome_strstr_iff.mpr hcrlf)
    obtain ⟨⟨rest, rfl⟩, line, rfl⟩ := strstr_split he
    rcases eq_or_ne line [] with rfl | hline
    · exact ⟨[], rest, rfl, fun _ h => nomatch h⟩
    · have hinfix : ¬ crlf <:+: line := by
        rintro ⟨x, y, rfl⟩
        have hsuffix := suffix_of_strstr (b := crlf ++ (y ++ (crlf ++ rest))) he
          (List.prefix_append _ _) ⟨x, by simp⟩
        have := hsuffix.length_le
        simp only [List.length_append] at this
        have : 0 < crlf.length := by decide
        omega
      have hrest : crlf <+: rest ∨ crlf ++ crlf <:+: rest := by
        rcases h with h | ⟨u, w, hw⟩
        · rw [strstr_at_front h, Option.some.injEq] at he
          exact absurd (by simpa using he) hline
        · have hsuffix := suffix_of_strstr (b := crlf ++ (crlf ++ w)) he
            (List.prefix_append _ _) ⟨u, by simpa using hw⟩
          rcases List.suffix_cons_iff.mp hsuffix with heq | hsuffix
          · exact .inl ⟨w, List.append_cancel_left heq⟩
          · rcases List.suffix_cons_iff.mp hsuffix with heq | hsuffix
            · cases heq
            · exact .inr ((List.prefix_append (crlf ++ crlf) w).isInfix.trans
                (by simpa using hsuffix.isInfix))
      have hlength : rest.length < n := by
        simp only [← hn, List.length_append]
        have : 0 < crlf.length := by decide
        omega
      obtain ⟨lines, body, hhead⟩ := ih _ hlength hrest rfl
      refine ⟨line :: lines, body, ?_, ?_⟩
      · rw [hhead.head_eq]
        simp
      · intro l hl
        rcases List.mem_cons.mp hl with rfl | hl
        · exact ⟨hline, hinfix⟩
        · exact hhead.isLine l hl

/-! ## Lines that name the header -/

/-- The line is `key: value`, where the key is the name up to case and has no colon. Nothing
stands between the key and the colon, and something stands behind it, if only a blank. -/
structure Names (name line value : Bytes) : Prop where
  line_eq : ∃ key : Bytes, line = key ++ 58 :: value ∧ 58 ∉ key ∧ key.map tolower = name.map tolower
  value_ne : value ≠ []

theorem tolower_eq_colon {b : UInt8} : tolower b = 58 ↔ b = 58 := by
  constructor
  · intro h
    unfold tolower at h
    split at h
    next hupper =>
      -- an upper-case letter becomes a lower-case one
      have hnat := congrArg UInt8.toNat h
      have hlow := UInt8.le_iff_toNat_le.mp hupper.1
      have hhigh := UInt8.le_iff_toNat_le.mp hupper.2
      simp only [UInt8.toNat_add, UInt8.reduceToNat] at hnat hlow hhigh
      omega
    next => exact h
  · rintro rfl
    rfl

/-- What the loop compares is that the line has the name in front of its first colon. -/
theorem namesHeader_iff (hname : 58 ∉ name) :
    namesHeader name line = true ↔ ∃ value, Names name line value := by
  constructor
  · intro h
    simp only [namesHeader, Bool.and_eq_true, decide_eq_true_eq] at h
    obtain ⟨⟨hlength, hcase⟩, hcolon⟩ := h
    rw [icaseStartsWith_iff] at hcase
    obtain ⟨hlt, hget⟩ := List.getElem?_eq_some_iff.mp hcolon
    have hsplit : line = line.take name.length ++ 58 :: line.drop (name.length + 1) := by
      conv_lhs => rw [← List.take_append_drop name.length line, List.drop_eq_getElem_cons hlt, hget]
    refine ⟨line.drop (name.length + 1), ⟨line.take name.length, hsplit, ?_, hcase⟩, ?_⟩
    · intro hmem
      have hlower : (58 : UInt8) ∈ name.map tolower := by
        rw [← hcase]
        exact List.mem_map.mpr ⟨58, hmem, rfl⟩
      obtain ⟨b, hb, hb58⟩ := List.mem_map.mp hlower
      exact hname (tolower_eq_colon.mp hb58 ▸ hb)
    · rw [ne_eq, List.drop_eq_nil_iff]
      omega
  · rintro ⟨value, ⟨key, rfl, _, hcase⟩, hvalue⟩
    have hlength : key.length = name.length := by simpa using congrArg List.length hcase
    have hpos := List.length_pos_iff.mpr hvalue
    simp only [namesHeader, Bool.and_eq_true, decide_eq_true_eq, ← hlength]
    refine ⟨⟨?_, ?_⟩, ?_⟩
    · simp only [List.length_append, List.length_cons]
      omega
    · rw [icaseStartsWith_iff, ← hlength, List.take_left, hcase]
    · simp

theorem Names.lineValue_eq (h : Names name line value) : lineValue name line = value.dropWhile isBlank := by
  obtain ⟨⟨key, rfl, _, hcase⟩, _⟩ := h
  have hlength : key.length = name.length := by simpa using congrArg List.length hcase
  rw [lineValue, ← hlength, List.drop_length_add_append]
  rfl

/-- A line names the header with one value. -/
theorem Names.unique {value' : Bytes} (h : Names name line value) (h' : Names name line value') :
    value = value' := by
  obtain ⟨⟨key, rfl, _, hcase⟩, _⟩ := h
  obtain ⟨⟨key', heq, _, hcase'⟩, _⟩ := h'
  have hlength : key.length = key'.length := by
    simpa using congrArg List.length (hcase.trans hcase'.symm)
  simpa using (List.append_inj heq hlength).2

/-! ## The search -/

/-- The search in the lines that start at the offset `p`: where the value is and where its
line ends. -/
def lookup (name : Bytes) : Nat → List Bytes → Option (Nat × Nat)
  | _, [] => none
  | p, line :: lines =>
    if namesHeader name line then
      some (p + (line.length - (lineValue name line).length), p + line.length)
    else lookup name (p + line.length + 2) lines

theorem stringAt_append {text : Bytes} (h : (0 : UInt8) ∉ text) (pre rest : Bytes) :
    stringAt (pre ++ (text ++ 0 :: rest)) pre.length = text := by
  rw [stringAt, List.drop_left, cstr_append h]
  simp [cstr]

theorem getElem?_append_ne_zero {text : Bytes} (h : (0 : UInt8) ∉ text) (hne : text ≠ [])
    (pre rest : Bytes) : (pre ++ (text ++ 0 :: rest))[pre.length]? ≠ some 0 := by
  obtain ⟨b, text, rfl⟩ := List.exists_cons_of_ne_nil hne
  rw [List.mem_cons, not_or] at h
  simpa using Ne.symm h.1

theorem takeWhile_isBlank_append (value t : Bytes) :
    (value ++ (crlf ++ t)).takeWhile isBlank = value.takeWhile isBlank := by
  induction value with
  | nil => simp [crlf, isBlank]
  | cons b value ih => simp [List.takeWhile_cons, ih]

theorem length_lineValue_le (name line : Bytes) :
    (lineValue name line).length ≤ line.length - (name.length + 1) := by
  rw [lineValue, ← List.length_drop]
  exact (List.dropWhile_suffix _).length_le

/-- The pointer to the value stands where the value does, counted from the end of the line. -/
theorem skipBlanks_append (hlength : name.length + 1 < line.length) (t : Bytes) :
    skipBlanks (pre ++ (line ++ (crlf ++ t))) (pre.length + name.length + 1) =
      pre.length + (line.length - (lineValue name line).length) := by
  have hdrop : (pre ++ (line ++ (crlf ++ t))).drop (pre.length + name.length + 1) =
      line.drop (name.length + 1) ++ (crlf ++ t) := by
    rw [Nat.add_assoc, List.drop_length_add_append, List.drop_append_of_le_length (by omega)]
  have hsplit := congrArg List.length
    (List.takeWhile_append_dropWhile (p := isBlank) (l := line.drop (name.length + 1)))
  rw [List.length_append, List.length_drop] at hsplit
  rw [skipBlanks, hdrop, takeWhile_isBlank_append, lineValue]
  omega

/-- One round for each line up to the one that is found, or the empty one. -/
theorem headerLoop_eq (name rest : Bytes) (hlines : ∀ line ∈ lines, line ≠ [] ∧ ¬ crlf <:+: line)
    (hnul : (0 : UInt8) ∉ (lines.map (· ++ crlf)).flatten ++ (crlf ++ body))
    (hn : lines.length < n) (pre : Bytes) :
    let mem := pre ++ ((lines.map (· ++ crlf)).flatten ++ (crlf ++ body) ++ 0 :: rest)
    headerLoop name n mem pre.length =
      some ((lookup name pre.length lines).map fun found => (found.1, mem.set found.2 0)) := by
  induction lines generalizing n pre with
  | nil =>
    obtain ⟨n, rfl⟩ := Nat.exists_eq_succ_of_ne_zero (Nat.ne_of_gt hn)
    rw [List.map_nil, List.flatten_nil, List.nil_append] at hnul ⊢
    have hne : crlf ++ body ≠ [] := by simp [crlf]
    have hfound : strstrAt (pre ++ (crlf ++ body ++ 0 :: rest)) pre.length crlf = some pre.length := by
      rw [strstrAt, stringAt_append hnul pre rest, strstr_at_front (List.prefix_append _ _)]
      simp
    simp only [headerLoop, if_neg (getElem?_append_ne_zero hnul hne pre rest), hfound, if_true]
    rfl
  | cons line lines ih =>
    obtain ⟨n, rfl⟩ := Nat.exists_eq_succ_of_ne_zero (Nat.ne_of_gt (Nat.zero_lt_of_lt hn))
    obtain ⟨hline, hinfix⟩ := hlines line List.mem_cons_self
    simp only [List.map_cons, List.flatten_cons, List.append_assoc] at hnul ⊢
    generalize hback : (lines.map (· ++ crlf)).flatten ++ (crlf ++ body) = back at hnul
    have hback' : (lines.map (· ++ crlf)).flatten ++ (crlf ++ (body ++ 0 :: rest)) =
        back ++ 0 :: rest := by simp [← hback]
    rw [hback']
    have hmem : pre ++ (line ++ (crlf ++ (back ++ 0 :: rest))) =
        pre ++ (line ++ (crlf ++ back) ++ 0 :: rest) := by simp
    have hne : line ++ (crlf ++ back) ≠ [] := by simp [hline]
    have hzero := getElem?_append_ne_zero hnul hne pre rest
    have hstring := stringAt_append hnul pre rest
    rw [← hmem] at hzero hstring
    have hfound : strstrAt (pre ++ (line ++ (crlf ++ (back ++ 0 :: rest)))) pre.length crlf =
        some (pre.length + line.length) := by
      rw [strstrAt, hstring, strstr_line hinfix]
      simp
    have hpos := List.length_pos_iff.mpr hline
    have hnames : (name.length + 1 < pre.length + line.length - pre.length ∧
        icaseStartsWith (line ++ (crlf ++ back)) name ∧
        (pre ++ (line ++ (crlf ++ (back ++ 0 :: rest))))[pre.length + name.length]? = some 58) ↔
        namesHeader name line = true := by
      simp only [Nat.add_sub_cancel_left, namesHeader, Bool.and_eq_true, decide_eq_true_eq,
        and_assoc]
      apply and_congr_right
      intro hlength
      rw [icaseStartsWith_append (by omega), List.getElem?_append_right (by omega),
        Nat.add_sub_cancel_left, List.getElem?_append_left (by omega)]
    simp only [headerLoop, if_neg hzero, hfound, hstring, lookup]
    rw [if_neg (by omega)]
    by_cases hfirst : namesHeader name line = true
    · have hlength : name.length + 1 < line.length := by
        simp only [namesHeader, Bool.and_eq_true, decide_eq_true_eq] at hfirst
        exact hfirst.1.1
      rw [if_pos (hnames.mpr hfirst), if_pos hfirst, skipBlanks_append hlength]
      rfl
    · rw [if_neg (mt hnames.mp hfirst), if_neg hfirst]
      have hnul' : (0 : UInt8) ∉ (lines.map (· ++ crlf)).flatten ++ (crlf ++ body) := by
        rw [hback]
        simp only [List.mem_append, not_or] at hnul ⊢
        exact hnul.2.2
      have hrest := ih (fun l hl => hlines l (List.mem_cons_of_mem _ hl)) hnul'
        (Nat.lt_of_succ_lt_succ hn) (pre ++ (line ++ crlf))
      have hpre : (pre ++ (line ++ crlf)).length = pre.length + line.length + 2 := by
        simp [crlf, Nat.add_assoc]
      have hmem' : pre ++ (line ++ crlf) ++ (back ++ 0 :: rest) =
          pre ++ (line ++ (crlf ++ (back ++ 0 :: rest))) := by simp
      dsimp only at hrest
      rw [hback, hpre, hmem'] at hrest
      exact hrest

/-! ## What is found -/

theorem lookup_eq_none {p : Nat} (h : lookup name p lines = none) :
    ∀ line ∈ lines, ¬ namesHeader name line = true := by
  induction lines generalizing p with
  | nil => exact fun _ h => nomatch h
  | cons line lines ih =>
    rw [lookup] at h
    split at h
    next => cases h
    next hfirst =>
      intro l hl
      rcases List.mem_cons.mp hl with rfl | hl
      · exact hfirst
      · exact ih h l hl

/-- The line found is the first one of that name, and the value what is left of it. -/
theorem lookup_eq_some {p : Nat} (h : lookup name p lines = some (v, lineEnd)) :
    ∃ before line after, lines = before ++ line :: after ∧
      (∀ l ∈ before, ¬ namesHeader name l = true) ∧ namesHeader name line = true ∧
      lineEnd = p + ((before.map (· ++ crlf)).flatten ++ line).length ∧
      v + (lineValue name line).length = lineEnd := by
  induction lines generalizing p with
  | nil => cases h
  | cons line lines ih =>
    rw [lookup] at h
    split at h
    next hfirst =>
      cases h
      have hle := length_lineValue_le name line
      refine ⟨[], line, lines, rfl, ?_, hfirst, rfl, by omega⟩
      exact fun _ h => nomatch h
    next hfirst =>
      obtain ⟨before, found, after, rfl, hbefore, hfound, hend, hv⟩ := ih h
      refine ⟨line :: before, found, after, rfl, ?_, hfound, ?_, hv⟩
      · intro l hl
        rcases List.mem_cons.mp hl with rfl | hl
        · exact hfirst
        · exact hbefore l hl
      · rw [hend]
        simp [crlf]
        omega

/-- The string at a pointer into a line that has been ended with a NUL. -/
theorem stringAt_set {front text t : Bytes} (h : (0 : UInt8) ∉ text) :
    stringAt ((front ++ (text ++ (crlf ++ t))).set (front.length + text.length) 0) front.length =
      text := by
  have hset : (front ++ (text ++ (crlf ++ t))).set (front.length + text.length) 0 =
      front ++ (text ++ 0 :: 10 :: t) := by
    rw [List.set_append_right _ _ (Nat.le_add_right _ _), Nat.add_sub_cancel_left,
      List.set_append_right _ _ le_rfl, Nat.sub_self]
    rfl
  rw [hset, stringAt_append h front]

theorem lineValue_suffix (name line : Bytes) : lineValue name line <:+ line :=
  (List.dropWhile_suffix _).trans (List.drop_suffix _ _)

theorem stringAt_line {before t : Bytes} (h : (0 : UInt8) ∉ line) {v : Nat}
    (hv : v + (lineValue name line).length = (before ++ line).length) :
    stringAt ((before ++ (line ++ (crlf ++ t))).set (before ++ line).length 0) v =
      lineValue name line := by
  obtain ⟨front, hfront⟩ := lineValue_suffix name line
  have hmem : before ++ (line ++ (crlf ++ t)) =
      (before ++ front) ++ (lineValue name line ++ (crlf ++ t)) := by
    conv_lhs => rw [← hfront]
    simp
  have hlength : v = (before ++ front).length := by
    have := congrArg List.length hfront
    simp only [List.length_append] at this hv ⊢
    omega
  have hend : (before ++ line).length = (before ++ front).length + (lineValue name line).length := by
    rw [← hlength, hv]
  rw [hmem, hend, hlength]
  apply stringAt_set
  exact fun hmem => h (hfront ▸ List.mem_append_right front hmem)

theorem length_le_length_flatten (lines : List Bytes) :
    lines.length ≤ (lines.map (· ++ crlf)).flatten.length := by
  induction lines with
  | nil => exact le_rfl
  | cons line lines ih =>
    have hcrlf : crlf.length = 2 := rfl
    simp only [List.map_cons, List.flatten_cons, List.length_append, List.length_cons, hcrlf]
    omega

/-- The lookup in a head, followed in memory by its NUL, is the search in its lines. -/
theorem IsHead.findHeaderValueAt_eq (h : IsHead head lines body) (hnul : (0 : UInt8) ∉ head)
    (name rest : Bytes) :
    findHeaderValueAt (head ++ 0 :: rest) name =
      some ((lookup name 0 lines).map fun found => (found.1, (head ++ 0 :: rest).set found.2 0)) := by
  have hlength : lines.length < (head ++ 0 :: rest).length := by
    have := length_le_length_flatten lines
    rw [h.head_eq]
    simp only [List.length_append, List.length_cons]
    omega
  have hloop := headerLoop_eq name rest h.isLine (h.head_eq ▸ hnul) hlength []
  rw [← h.head_eq] at hloop
  exact hloop

theorem IsHead.stringAt_eq {before after : List Bytes}
    (h : IsHead head (before ++ line :: after) body) (hnul : (0 : UInt8) ∉ head)
    (hv : v + (lineValue name line).length =
      ((before.map (· ++ crlf)).flatten ++ line).length) (rest : Bytes) :
    stringAt ((head ++ 0 :: rest).set ((before.map (· ++ crlf)).flatten ++ line).length 0) v =
      lineValue name line := by
  have hmem : head ++ 0 :: rest = (before.map (· ++ crlf)).flatten ++ (line ++ (crlf ++
      ((after.map (· ++ crlf)).flatten ++ (crlf ++ (body ++ 0 :: rest))))) := by
    rw [h.head_eq]
    simp
  have hline : (0 : UInt8) ∉ line := by
    rw [h.head_eq] at hnul
    simp only [List.map_append, List.map_cons, List.flatten_append, List.flatten_cons,
      List.mem_append, not_or] at hnul
    exact hnul.1.2.1.1
  rw [hmem]
  exact stringAt_line hline hv

/-- The lines of a head are what the search of the value goes through. -/
theorem IsHead.headerLines_eq (h : IsHead head lines body) : headerLines head = lines := by
  obtain ⟨rfl, hlines⟩ := h
  induction lines with
  | nil => rfl
  | cons line lines ih =>
    obtain ⟨hline, hinfix⟩ := hlines line List.mem_cons_self
    have hrest := ih fun l hl => hlines l (List.mem_cons_of_mem _ hl)
    simp only [List.map_cons, List.flatten_cons, List.append_assoc]
    rw [headerLines, linesFrom_of_strstr [] (strstr_line hinfix _), List.nil_append,
      List.length_append, Nat.add_sub_cancel, List.take_left, if_neg hline]
    exact congrArg (line :: ·) hrest

/-- The string the pointer points to is the value that `findHeaderValue` answers. -/
theorem IsHead.text_findHeaderValueAt (h : IsHead head lines body) (hnul : (0 : UInt8) ∉ head)
    (name rest : Bytes) :
    (findHeaderValueAt (head ++ 0 :: rest) name).map
        (Option.map fun found => stringAt found.2 found.1) =
      some (findHeaderValue head name) := by
  rw [h.findHeaderValueAt_eq hnul, findHeaderValue_eq, h.headerLines_eq]
  cases hfound : lookup name 0 lines with
  | none =>
    rw [List.find?_eq_none.mpr (lookup_eq_none hfound)]
    rfl
  | some found =>
    obtain ⟨v, lineEnd⟩ := found
    obtain ⟨before, line, after, rfl, hbefore, hline, rfl, hv⟩ := lookup_eq_some hfound
    have hfind : (before ++ line :: after).find? (namesHeader name) = some line :=
      List.find?_eq_some_iff_append.mpr
        ⟨hline, before, after, rfl, fun l hl => by simpa using hbefore l hl⟩
    rw [Nat.zero_add] at hv
    simp only [Option.map_some, hfind, Nat.zero_add, h.stringAt_eq hnul hv rest]

/-- **The lookup finds the first line of that name.** The buffer holds a request head that ends
with an empty line and has no NUL in it, a NUL behind the head, and any bytes `rest` behind
that; the name has no colon. Such a head is made of lines in some way (`IsHead`), and for every
such way one of two things holds. Either no line names the header, and the answer is NULL. Or
there is a first line that does: the byte behind that line is now NUL and no other byte has
changed, the pointer that is answered is to a place in the line, and the string at the pointer
is the value of the line with the blanks in front of it removed. -/
theorem findHeaderValueAt_spec (head name rest : Bytes) (hnul : (0 : UInt8) ∉ head)
    (hend : crlf ++ crlf <:+: head) (hname : 58 ∉ name) :
    (∃ lines body, IsHead head lines body) ∧
      ∀ lines body, IsHead head lines body →
        let mem := head ++ 0 :: rest
        (findHeaderValueAt mem name = some none ∧
          ∀ line ∈ lines, ∀ value, ¬ Names name line value) ∨
        ∃ before line after value v, lines = before ++ line :: after ∧
          (∀ l ∈ before, ∀ value, ¬ Names name l value) ∧ Names name line value ∧
          let lineEnd := ((before.map (· ++ crlf)).flatten ++ line).length
          findHeaderValueAt mem name = some (some (v, mem.set lineEnd 0)) ∧
            v + (value.dropWhile isBlank).length = lineEnd ∧
            stringAt (mem.set lineEnd 0) v = value.dropWhile isBlank := by
  have hnames {l : Bytes} (h : ¬ namesHeader name l = true) (value : Bytes) :
      ¬ Names name l value := fun hl => h ((namesHeader_iff hname).mpr ⟨value, hl⟩)
  refine ⟨exists_isHead (.inr hend), fun lines body hhead => ?_⟩
  have heq := hhead.findHeaderValueAt_eq hnul name rest
  cases hfound : lookup name 0 lines with
  | none =>
    rw [hfound] at heq
    exact .inl ⟨heq, fun l hl => hnames (lookup_eq_none hfound l hl)⟩
  | some found =>
    obtain ⟨v, lineEnd⟩ := found
    obtain ⟨before, line, after, rfl, hbefore, hline, rfl, hv⟩ := lookup_eq_some hfound
    obtain ⟨value, hvalue⟩ := (namesHeader_iff hname).mp hline
    rw [hfound, Option.map_some, Nat.zero_add] at heq
    rw [Nat.zero_add] at hv
    refine .inr ⟨before, line, after, value, v, rfl, fun l hl => hnames (hbefore l hl), hvalue,
      heq, by rw [← hvalue.lineValue_eq, hv], ?_⟩
    rw [hhead.stringAt_eq hnul hv rest, hvalue.lineValue_eq]

/-- A head of three lines, with a line in the body that names the header too. -/
def hostLines : List Bytes :=
  [ascii "GET / HTTP/1.1", ascii "Hosts: b", ascii "Host: \ta"]

def hostHead : Bytes :=
  ascii "GET / HTTP/1.1\r\nHosts: b\r\nHost: \ta\r\n\r\nhost: c\r\n"

theorem hostHead_isHead : IsHead hostHead hostLines (ascii "host: c\r\n") where
  head_eq := by decide
  isLine := by decide

theorem hostLines_names : Names (ascii "host") (ascii "Host: \ta") (ascii " \ta") where
  line_eq := ⟨ascii "Host", by decide, by decide, by decide⟩
  value_ne := by decide

/-- A name in another case, behind a line whose name only starts like it: the value is that
of the third line, without its blanks. -/
theorem findHeaderValueAt_spec_host : ∃ v mem,
    findHeaderValueAt (hostHead ++ [0]) (ascii "host") = some (some (v, mem)) ∧
      stringAt mem v = ascii "a" := by
  have hspec := (findHeaderValueAt_spec hostHead (ascii "host") [] (by decide)
    ⟨ascii "GET / HTTP/1.1\r\nHosts: b\r\nHost: \ta", ascii "host: c\r\n", by decide⟩
    (by decide)).2 hostLines _ hostHead_isHead
  obtain ⟨-, hnone⟩ | ⟨before, line, after, value, v, hlines, -, hnames, hfound, -, htext⟩ := hspec
  · exact absurd hostLines_names (hnone _ (by decide) _)
  · have hline : line ∈ hostLines := by simp [hlines]
    have honly : ∀ l ∈ hostLines, namesHeader (ascii "host") l = true → l = ascii "Host: \ta" := by
      decide
    obtain rfl := honly line hline ((namesHeader_iff (by decide)).mpr ⟨value, hnames⟩)
    obtain rfl := hnames.unique hostLines_names
    exact ⟨v, _, hfound, htext.trans (by decide)⟩

end TelemetryTestbed.WebSocket

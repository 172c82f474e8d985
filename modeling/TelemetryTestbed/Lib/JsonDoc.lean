import TelemetryTestbed.Lib.JsonNumber
import TelemetryTestbed.Lib.JsonString

/-!
# Documents pasted together

A program that writes JSON with format strings pastes texts into a frame of braces,
quotation marks and names. `Doc` is such a document, `Doc.paste` the text, and
`Doc.GivesBack` says that a parsed value has every string and every integer of the
document at its place. The law is an equivalence (`parse_paste_iff`): the text
parses and gives back what was pasted exactly if every string is plain UTF-8 and
every other text is a JSON value.

Both directions matter to a program that does not escape: from left to right a text that
parses leaves no room for a quotation mark or a control character in any string, and from
right to left plain strings are enough. Numbers pasted with `%d` are values by themselves, so
they are no condition; what `%f` prints of an infinity or a NaN is not a value.
-/

namespace TelemetryTestbed.Lib.Json

/-- A document, as the program that writes it sees it. -/
inductive Doc
  /-- a text that is not looked at when it is read back -/
  | raw (t : Bytes)
  | int (n : Int)
  | str (t : Bytes)
  | obj (ms : List (Bytes × Doc))
  | arr (ds : List Doc)

namespace Doc

mutual

/-- The text of a document in front of another text. -/
def paste : Doc → Bytes → Bytes
  | .raw t, r => t ++ r
  | .int n, r => decimal n ++ r
  | .str t, r => 0x22 :: (t ++ 0x22 :: r)
  | .obj [], r => 0x7B :: 0x7D :: r
  | .obj ((k, d) :: ms), r => 0x7B :: 0x22 :: (k ++ 0x22 :: 0x3A :: d.paste (pasteMembers ms r))
  | .arr [], r => 0x5B :: 0x5D :: r
  | .arr (d :: ds), r => 0x5B :: d.paste (pasteElements ds r)

/-- The members behind the first one, and the closing brace. -/
def pasteMembers : List (Bytes × Doc) → Bytes → Bytes
  | [], r => 0x7D :: r
  | (k, d) :: ms, r => 0x2C :: 0x22 :: (k ++ 0x22 :: 0x3A :: d.paste (pasteMembers ms r))

def pasteElements : List Doc → Bytes → Bytes
  | [], r => 0x5D :: r
  | d :: ds, r => 0x2C :: d.paste (pasteElements ds r)

end

mutual

/-- Nothing of the document is looked at when it is read back. -/
def Silent : Doc → Prop
  | .raw _ => True
  | .int _ | .str _ | .arr _ => False
  | .obj ms => silentMembers ms

def silentMembers : List (Bytes × Doc) → Prop
  | [] => True
  | (_, d) :: ms => d.Silent ∧ silentMembers ms

end

mutual

/-- The value has every string and every integer of the document at its place. -/
def GivesBack : Doc → Json → Prop
  | .raw _, _ => True
  | .int n, v => v = .num n 0
  | .str t, v => v = .str t
  | .obj ms, v => membersBack ms v.entries
  | .arr ds, v => ∃ vs, v = .arr vs ∧ elementsBack ds vs

def membersBack : List (Bytes × Doc) → List (Bytes × Json) → Prop
  | [], _ => True
  | (k, d) :: ms, vs =>
    (d.Silent ∨ ∃ v, get? k vs = some v ∧ d.GivesBack v) ∧ membersBack ms vs

def elementsBack : List Doc → List Json → Prop
  | [], vs => vs = []
  | d :: ds, vs => ∃ v vs', vs = v :: vs' ∧ d.GivesBack v ∧ elementsBack ds vs'

end

mutual

/-- Every string is plain, and every raw text is a value. -/
def Clean : Doc → Prop
  | .raw t => Atom t
  | .int _ => True
  | .str t => Plain t
  | .obj ms => cleanMembers ms
  | .arr ds => cleanElements ds

def cleanMembers : List (Bytes × Doc) → Prop
  | [] => True
  | (_, d) :: ms => d.Clean ∧ cleanMembers ms

def cleanElements : List Doc → Prop
  | [] => True
  | d :: ds => d.Clean ∧ cleanElements ds

end

/-- A raw text is printable ASCII without a backslash, and a value or the beginning
of none. -/
def Settled (t : Bytes) : Prop :=
  (∀ b ∈ t, b.toNat < 128 ∧ b ≠ 0x5C) ∧ (Atom t ∨ Refused t)

/-- A quoted text is a value. -/
theorem atom_quoted {t : Bytes} (h : Plain t) : Atom (0x22 :: (t ++ [0x22])) := by
  refine ⟨.str t, fun n r _ => ?_⟩
  have htext : 0x22 :: (t ++ [0x22]) ++ r = 0x22 :: (t ++ 0x22 :: r) := by
    rw [List.cons_append, List.append_assoc, List.singleton_append]
  rw [htext]
  show (string (t ++ 0x22 :: r)).map _ = _
  rw [string_plain h]
  rfl

theorem settled_format6 (x : Double) : Settled x.format6 := by
  refine ⟨?_, ?_⟩
  · have hdigit : ∀ {b : UInt8}, isdigit b = true → b.toNat < 128 ∧ b ≠ 0x5C := by
      intro b hb
      refine ⟨by have hle := (isdigit_iff.mp hb).2; omega, ?_⟩
      rintro rfl
      cases hb
    have hminus : ∀ {neg : Bool} {t : Bytes}, (∀ b ∈ t, b.toNat < 128 ∧ b ≠ 0x5C) →
        ∀ b ∈ minusIf neg t, b.toNat < 128 ∧ b ≠ 0x5C := by
      intro neg t ht b hb
      cases neg with
      | false => exact ht b hb
      | true =>
        rcases List.mem_cons.mp hb with rfl | hb
        · decide
        · exact ht b hb
    cases x with
    | nan neg => exact hminus (forall_mem_of_all rfl)
    | inf neg => exact hminus (forall_mem_of_all rfl)
    | fin neg mant exp =>
      apply hminus
      intro b hb
      rcases List.mem_append.mp hb with hb | hb
      · exact hdigit (isdigit_decimalNat hb)
      · rcases List.mem_cons.mp hb with rfl | hb
        · decide
        · exact hdigit (isdigit_fixedDigits hb)
  · by_cases h : x.IsFinite
    · exact Or.inl (atom_format6 h)
    · exact Or.inr (refused_format6 h)

theorem atom_format6_iff (x : Double) : Atom x.format6 ↔ x.IsFinite := by
  constructor
  · rintro ⟨v, hv⟩
    by_contra h
    cases (hv 0 [] delimited_nil).symm.trans (refused_format6 h 1 [])
  · exact atom_format6

mutual

/-- What a frame is made of: plain names that differ, settled raw texts, and arrays of
objects. -/
def Framed : Doc → Prop
  | .raw t => Settled t
  | .int _ => True
  | .str _ => True
  | .obj ms => framedMembers ms
  | .arr ds => framedElements ds

def framedMembers : List (Bytes × Doc) → Prop
  | [] => True
  | (k, d) :: ms =>
    (Plain k ∧ ∀ b ∈ k, b.toNat < 128) ∧ k ∉ ms.map Prod.fst ∧ d.Framed ∧ framedMembers ms

def framedElements : List Doc → Prop
  | [] => True
  | d :: ds => (∃ ms, d = .obj ms) ∧ d.Framed ∧ framedElements ds

end

/-- Members framed by the given names. -/
theorem framedMembers_of {ms : List (Bytes × Doc)} (names : List Bytes)
    (hnames : ms.map Prod.fst = names)
    (hplain : ∀ k ∈ names, k.all (fun b => decide (PlainByte b ∧ b.toNat < 128)) = true)
    (hnodup : names.Nodup)
    (hdocs : ∀ m ∈ ms, m.2.Framed) : framedMembers ms := by
  induction ms generalizing names with
  | nil => exact True.intro
  | cons m ms ih =>
    cases hnames
    rw [List.map_cons, List.nodup_cons] at hnodup
    rw [List.map_cons, List.forall_mem_cons] at hplain
    rw [List.forall_mem_cons] at hdocs
    have hname := forall_mem_of_all hplain.1
    exact ⟨⟨fun b hb => (hname b hb).1, fun b hb => (hname b hb).2⟩, hnodup.1, hdocs.1,
      ih _ rfl hplain.2 hnodup.2 hdocs.2⟩

mutual

/-- A bound on the nesting the parser meets. -/
def size : Doc → Nat
  | .raw _ | .int _ | .str _ => 1
  | .obj ms => sizeMembers ms + 1
  | .arr ds => sizeElements ds + 1

def sizeMembers : List (Bytes × Doc) → Nat
  | [] => 0
  | (_, d) :: ms => d.size + sizeMembers ms + 1

def sizeElements : List Doc → Nat
  | [] => 0
  | d :: ds => d.size + sizeElements ds + 1

end

variable {r : Bytes}

/-! ## What follows a value -/

theorem delimited_pasteMembers (ms : List (Bytes × Doc)) (r : Bytes) :
    Delimited (pasteMembers ms r) := by
  cases ms with
  | nil => exact delimited_cons (Or.inr (Or.inl rfl))
  | cons m ms => exact delimited_cons (Or.inl rfl)

theorem delimited_pasteElements (ds : List Doc) (r : Bytes) : Delimited (pasteElements ds r) := by
  cases ds with
  | nil => exact delimited_cons (Or.inr (Or.inr rfl))
  | cons d ds => exact delimited_cons (Or.inl rfl)

theorem quiet_pasteMembers (ms : List (Bytes × Doc)) (h : Quiet r) :
    Quiet (pasteMembers ms r) := by
  cases ms with
  | nil => exact Quiet.cons (by decide) h
  | cons m ms => exact Quiet.cons (by decide) (Or.inl rfl)

theorem backslash_notMem_decimal (n : Int) : (0x5C : UInt8) ∉ decimal n := fun h => by
  rcases mem_decimal h with h | h <;> cases h

mutual

theorem quiet_paste : (d : Doc) → (r : Bytes) → d.Framed → Quiet r → Quiet (d.paste r)
  | .raw _, _, hd, hr => Quiet.append (fun h => (hd.1 _ h).2 rfl) hr
  | .int n, _, _, hr => Quiet.append (backslash_notMem_decimal n) hr
  | .str _, _, _, _ => Or.inl rfl
  | .obj [], _, _, hr => Quiet.cons (by decide) (Quiet.cons (by decide) hr)
  | .obj (_ :: _), _, _, _ => Quiet.cons (by decide) (Or.inl rfl)
  | .arr [], _, _, hr => Quiet.cons (by decide) (Quiet.cons (by decide) hr)
  | .arr (d :: ds), r, hd, hr =>
    Quiet.cons (by decide) (quiet_paste d _ hd.2.1 (quiet_pasteElements ds r hd.2.2 hr))

theorem quiet_pasteElements : (ds : List Doc) → (r : Bytes) → framedElements ds → Quiet r →
    Quiet (pasteElements ds r)
  | [], _, _, hr => Quiet.cons (by decide) hr
  | d :: ds, r, hd, hr =>
    Quiet.cons (by decide) (quiet_paste d _ hd.2.1 (quiet_pasteElements ds r hd.2.2 hr))

end

/-! ## UTF-8 -/

mutual

/-- Every string is UTF-8. -/
def Utf8 : Doc → Prop
  | .raw _ | .int _ => True
  | .str t => IsUtf8 t
  | .obj ms => utf8Members ms
  | .arr ds => utf8Elements ds

def utf8Members : List (Bytes × Doc) → Prop
  | [] => True
  | (_, d) :: ms => d.Utf8 ∧ utf8Members ms

def utf8Elements : List Doc → Prop
  | [] => True
  | d :: ds => d.Utf8 ∧ utf8Elements ds

end

theorem ascii_decimal (n : Int) : ∀ b ∈ decimal n, b.toNat < 128 := by
  intro b hb
  rcases mem_decimal hb with rfl | hb
  · decide
  · have hle := (isdigit_iff.mp hb).2
    omega

/-- The text of a name is ASCII. -/
theorem isUtf8_name {k r : Bytes} (hk : ∀ b ∈ k, b.toNat < 128) :
    IsUtf8 (0x22 :: (k ++ 0x22 :: 0x3A :: r)) ↔ IsUtf8 r := by
  rw [isUtf8_cons (by decide), isUtf8_ascii_append hk, isUtf8_cons (by decide),
    isUtf8_cons (by decide)]

mutual

/-- A text is UTF-8 exactly if its strings are. -/
theorem isUtf8_paste : (d : Doc) → (r : Bytes) → d.Framed →
    (IsUtf8 (d.paste r) ↔ d.Utf8 ∧ IsUtf8 r)
  | .raw _, _, hd => by
    rw [paste, isUtf8_ascii_append fun b hb => (hd.1 b hb).1, Utf8, true_and]
  | .int n, _, _ => by
    rw [paste, isUtf8_ascii_append (ascii_decimal n), Utf8, true_and]
  | .str t, r, _ => by
    rw [paste, isUtf8_cons (by decide), isUtf8_append_cons (by decide), Utf8]
  | .obj [], r, _ => by
    rw [paste, isUtf8_cons (by decide), isUtf8_cons (by decide), Utf8, utf8Members, true_and]
  | .obj ((k, d) :: ms), r, hd => by
    rw [paste, isUtf8_cons (by decide), isUtf8_name hd.1.2, isUtf8_paste d _ hd.2.2.1,
      isUtf8_pasteMembers ms r hd.2.2.2, Utf8, utf8Members, and_assoc]
  | .arr [], r, _ => by
    rw [paste, isUtf8_cons (by decide), isUtf8_cons (by decide), Utf8, utf8Elements, true_and]
  | .arr (d :: ds), r, hd => by
    rw [paste, isUtf8_cons (by decide), isUtf8_paste d _ hd.2.1,
      isUtf8_pasteElements ds r hd.2.2, Utf8, utf8Elements, and_assoc]

theorem isUtf8_pasteMembers : (ms : List (Bytes × Doc)) → (r : Bytes) → framedMembers ms →
    (IsUtf8 (pasteMembers ms r) ↔ utf8Members ms ∧ IsUtf8 r)
  | [], r, _ => by rw [pasteMembers, isUtf8_cons (by decide), utf8Members, true_and]
  | (k, d) :: ms, r, hd => by
    rw [pasteMembers, isUtf8_cons (by decide), isUtf8_name hd.1.2, isUtf8_paste d _ hd.2.2.1,
      isUtf8_pasteMembers ms r hd.2.2.2, utf8Members, and_assoc]

theorem isUtf8_pasteElements : (ds : List Doc) → (r : Bytes) → framedElements ds →
    (IsUtf8 (pasteElements ds r) ↔ utf8Elements ds ∧ IsUtf8 r)
  | [], r, _ => by rw [pasteElements, isUtf8_cons (by decide), utf8Elements, true_and]
  | d :: ds, r, hd => by
    rw [pasteElements, isUtf8_cons (by decide), isUtf8_paste d _ hd.2.1,
      isUtf8_pasteElements ds r hd.2.2, utf8Elements, and_assoc]

end

/-! ## Looking a name up -/

theorem filter_cons_self (k : Bytes) (v : Json) (vs : List (Bytes × Json)) :
    ((k, v) :: vs).filter (fun m => m.1 = k) = (k, v) :: vs.filter fun m => m.1 = k :=
  List.filter_cons_of_pos (decide_eq_true rfl)

theorem get?_cons_self {k : Bytes} {v w : Json} {vs : List (Bytes × Json)}
    (h : get? k ((k, v) :: vs) = some w) : w = v := by
  unfold get? at h
  rw [filter_cons_self] at h
  split at h
  next m hm =>
    obtain ⟨rfl, -⟩ := List.cons.inj hm
    exact (Option.some.inj h).symm
  next => cases h

theorem get?_cons_of_ne {k k' : Bytes} {v : Json} {vs : List (Bytes × Json)} (h : k ≠ k') :
    get? k' ((k, v) :: vs) = get? k' vs := by
  unfold get?
  rw [List.filter_cons_of_neg (by simpa using h)]

theorem get?_cons_of_notMem {k : Bytes} {v : Json} {vs : List (Bytes × Json)}
    (h : k ∉ vs.map Prod.fst) : get? k ((k, v) :: vs) = some v := by
  have hnil : vs.filter (fun m => m.1 = k) = [] := by
    refine List.filter_eq_nil_iff.mpr fun m hm hk => h ?_
    rw [← of_decide_eq_true hk]
    exact List.mem_map_of_mem hm
  unfold get?
  rw [filter_cons_self, hnil]

theorem membersBack_cons {k : Bytes} {v : Json} {vs : List (Bytes × Json)}
    {ms : List (Bytes × Doc)} (h : k ∉ ms.map Prod.fst) :
    membersBack ms ((k, v) :: vs) ↔ membersBack ms vs := by
  induction ms with
  | nil => exact Iff.rfl
  | cons m ms ih =>
    rw [List.map_cons, List.mem_cons, not_or] at h
    rw [membersBack, membersBack, get?_cons_of_ne h.1, ih h.2]

mutual

theorem Silent.givesBack : (d : Doc) → d.Silent → (v : Json) → d.GivesBack v
  | .raw _, _, _ => True.intro
  | .obj ms, h, v => silentMembers_back ms h v.entries

theorem silentMembers_back : (ms : List (Bytes × Doc)) → silentMembers ms →
    (vs : List (Bytes × Json)) → membersBack ms vs
  | [], _, _ => True.intro
  | (_, _) :: ms, h, vs => ⟨Or.inl h.1, silentMembers_back ms h.2 vs⟩

end

/-! ## The law -/

/-- A clean document is read back, and no other is. -/
def Law (d : Doc) (n : Nat) (r : Bytes) : Prop :=
  (d.Clean → ∃ v, value n (d.paste r) = some (v, r) ∧ d.GivesBack v) ∧
    ∀ v rest, value n (d.paste r) = some (v, rest) → d.GivesBack v → d.Clean

/-- What `members` reads behind a member. -/
def membersTail (n : Nat) (bs : Bytes) : Option (List (Bytes × Json) × Bytes) :=
  match token 0x2C bs with
  | some bs => members n bs
  | none => (token 0x7D bs).map fun bs => ([], bs)

/-- The law of the members behind the first. -/
def MembersLaw (ms : List (Bytes × Doc)) (n : Nat) (r : Bytes) : Prop :=
  (cleanMembers ms → ∃ vs, membersTail n (pasteMembers ms r) = some (vs, r) ∧
    membersBack ms vs ∧ vs.map Prod.fst = ms.map Prod.fst) ∧
  ∀ vs rest, membersTail n (pasteMembers ms r) = some (vs, rest) → membersBack ms vs →
    cleanMembers ms

/-- The law of a first member and those behind it. -/
def FirstLaw (k : Bytes) (d : Doc) (ms : List (Bytes × Doc)) (n : Nat) (r : Bytes) : Prop :=
  let text := 0x22 :: (k ++ 0x22 :: 0x3A :: d.paste (pasteMembers ms r))
  (cleanMembers ((k, d) :: ms) → ∃ vs, members n text = some (vs, r) ∧
    membersBack ((k, d) :: ms) vs ∧ vs.map Prod.fst = ((k, d) :: ms).map Prod.fst) ∧
  ∀ vs rest, members n text = some (vs, rest) → membersBack ((k, d) :: ms) vs →
    cleanMembers ((k, d) :: ms)

def elementsTail (n : Nat) (bs : Bytes) : Option (List Json × Bytes) :=
  match token 0x2C bs with
  | some bs => elements n bs
  | none => (token 0x5D bs).map fun bs => ([], bs)

def ElementsLaw (ds : List Doc) (n : Nat) (r : Bytes) : Prop :=
  (cleanElements ds → ∃ vs, elementsTail n (pasteElements ds r) = some (vs, r) ∧
    elementsBack ds vs) ∧
  ∀ vs rest, elementsTail n (pasteElements ds r) = some (vs, rest) → elementsBack ds vs →
    cleanElements ds

def FirstElementLaw (d : Doc) (ds : List Doc) (n : Nat) (r : Bytes) : Prop :=
  (cleanElements (d :: ds) → ∃ vs, elements n (d.paste (pasteElements ds r)) = some (vs, r) ∧
    elementsBack (d :: ds) vs) ∧
  ∀ vs rest, elements n (d.paste (pasteElements ds r)) = some (vs, rest) →
    elementsBack (d :: ds) vs → cleanElements (d :: ds)

/-- A member with a plain name is read as its value and what follows. -/
theorem members_name {k : Bytes} (hk : Plain k) (n : Nat) (bs : Bytes) :
    members (n + 1) (0x22 :: (k ++ 0x22 :: 0x3A :: bs)) =
      (value n bs).bind fun (v, bs) =>
        (membersTail n bs).map fun (vs, bs) => ((k, v) :: vs, bs) := by
  have hcolon : ∀ bs, token 0x3A (0x3A :: bs) = some bs := fun _ => rfl
  rw [members]
  show (string (k ++ 0x22 :: 0x3A :: bs)).bind _ = _
  rw [string_plain hk]
  simp only [Option.bind_some, hcolon]
  congr 1
  funext ⟨v, bs⟩
  unfold membersTail
  dsimp only
  cases token 0x2C bs with
  | some bs => rfl
  | none =>
    dsimp only
    cases token 0x7D bs <;> rfl

theorem elements_step (n : Nat) (bs : Bytes) :
    elements (n + 1) bs =
      (value n bs).bind fun (v, bs) => (elementsTail n bs).map fun (vs, bs) => (v :: vs, bs) := by
  rw [elements]
  congr 1
  funext ⟨v, bs⟩
  unfold elementsTail
  dsimp only
  cases token 0x2C bs with
  | some bs => rfl
  | none =>
    dsimp only
    cases token 0x5D bs <;> rfl

variable {n : Nat}

theorem first_law {k : Bytes} {d : Doc} {ms : List (Bytes × Doc)} (hk : Plain k)
    (hnew : k ∉ ms.map Prod.fst) (hd : Law d n (pasteMembers ms r)) (hms : MembersLaw ms n r) :
    FirstLaw k d ms (n + 1) r := by
  unfold FirstLaw
  dsimp only
  rw [members_name hk]
  constructor
  · rintro ⟨hclean, hcleans⟩
    obtain ⟨v, hv, hback⟩ := hd.1 hclean
    obtain ⟨vs, hvs, hbacks, hkeys⟩ := hms.1 hcleans
    refine ⟨(k, v) :: vs, ?_, ⟨Or.inr ⟨v, get?_cons_of_notMem (hkeys ▸ hnew), hback⟩,
      (membersBack_cons hnew).mpr hbacks⟩, ?_⟩
    · rw [hv, Option.bind_some]
      dsimp only
      rw [hvs, Option.map_some]
    · rw [List.map_cons, List.map_cons, hkeys]
  · intro vs rest h hback
    obtain ⟨⟨v, bs⟩, hv, h⟩ := Option.bind_eq_some_iff.mp h
    obtain ⟨⟨vs', rest'⟩, hvs, heq⟩ := Option.map_eq_some_iff.mp h
    cases heq
    obtain ⟨hmember, hbacks⟩ := hback
    have hgives : d.GivesBack v := by
      rcases hmember with hsilent | ⟨w, hw, hgives⟩
      · exact Silent.givesBack d hsilent v
      · exact get?_cons_self hw ▸ hgives
    have hclean := hd.2 v bs hv hgives
    -- the member was read to its end, so the next ones stand where they were pasted
    obtain ⟨v', hv', -⟩ := hd.1 hclean
    cases hv.symm.trans hv'
    exact ⟨hclean, hms.2 vs' _ hvs ((membersBack_cons hnew).mp hbacks)⟩

theorem firstElement_law {d : Doc} {ds : List Doc} (hd : Law d n (pasteElements ds r))
    (hds : ElementsLaw ds n r) : FirstElementLaw d ds (n + 1) r := by
  unfold FirstElementLaw
  rw [elements_step]
  constructor
  · rintro ⟨hclean, hcleans⟩
    obtain ⟨v, hv, hback⟩ := hd.1 hclean
    obtain ⟨vs, hvs, hbacks⟩ := hds.1 hcleans
    refine ⟨v :: vs, ?_, v, vs, rfl, hback, hbacks⟩
    rw [hv, Option.bind_some]
    dsimp only
    rw [hvs, Option.map_some]
  · intro vs rest h hback
    obtain ⟨⟨v, bs⟩, hv, h⟩ := Option.bind_eq_some_iff.mp h
    obtain ⟨⟨vs', rest'⟩, hvs, heq⟩ := Option.map_eq_some_iff.mp h
    cases heq
    obtain ⟨w, ws, hws, hgives, hbacks⟩ := hback
    cases hws
    have hclean := hd.2 v bs hv hgives
    obtain ⟨v', hv', -⟩ := hd.1 hclean
    cases hv.symm.trans hv'
    exact ⟨hclean, hds.2 vs' _ hvs hbacks⟩

theorem str_law (t : Bytes) (hr : Quiet r) : Law (.str t) (n + 1) r := by
  have hvalue : value (n + 1) ((Doc.str t).paste r) =
      (string (t ++ 0x22 :: r)).map fun p => (.str p.1, p.2) := rfl
  unfold Law
  rw [hvalue]
  constructor
  · intro hclean
    rw [string_plain hclean]
    exact ⟨.str t, rfl, rfl⟩
  · intro v rest h hback
    obtain ⟨⟨s, rest'⟩, hs, heq⟩ := Option.map_eq_some_iff.mp h
    cases heq
    cases hback
    exact plain_of_string hr hs

theorem raw_law {t : Bytes} (ht : Settled t) (hr : Delimited r) : Law (.raw t) (n + 1) r := by
  refine ⟨fun ⟨v, hv⟩ => ⟨v, hv n r hr, True.intro⟩, fun v rest h _ => ?_⟩
  rcases ht.2 with hatom | hrefused
  · exact hatom
  · cases (hrefused (n + 1) r).symm.trans h

theorem obj_law {k : Bytes} {d : Doc} {ms : List (Bytes × Doc)} (h : FirstLaw k d ms n r) :
    Law (.obj ((k, d) :: ms)) (n + 1) r := by
  have hvalue : value (n + 1) ((Doc.obj ((k, d) :: ms)).paste r) =
      (members n (0x22 :: (k ++ 0x22 :: 0x3A :: d.paste (pasteMembers ms r)))).map
        fun (ms, rest) => (.obj ms, rest) := rfl
  unfold Law
  rw [hvalue]
  constructor
  · intro hclean
    obtain ⟨vs, hvs, hback, -⟩ := h.1 hclean
    rw [hvs]
    exact ⟨.obj vs, rfl, hback⟩
  · intro v rest hv hback
    obtain ⟨⟨vs, rest'⟩, hvs, heq⟩ := Option.map_eq_some_iff.mp hv
    cases heq
    exact h.2 vs _ hvs hback

theorem arr_law {ms : List (Bytes × Doc)} {ds : List Doc}
    (h : FirstElementLaw (.obj ms) ds n r) : Law (.arr (.obj ms :: ds)) (n + 1) r := by
  have hvalue : value (n + 1) ((Doc.arr (.obj ms :: ds)).paste r) =
      (elements n ((Doc.obj ms).paste (pasteElements ds r))).map
        fun (es, rest) => (.arr es, rest) := by
    cases ms <;> rfl
  unfold Law
  rw [hvalue]
  constructor
  · intro hclean
    obtain ⟨vs, hvs, hback⟩ := h.1 hclean
    rw [hvs]
    exact ⟨.arr vs, rfl, vs, rfl, hback⟩
  · intro v rest hv hback
    obtain ⟨⟨vs, rest'⟩, hvs, heq⟩ := Option.map_eq_some_iff.mp hv
    cases heq
    obtain ⟨ws, hws, hback⟩ := hback
    cases hws
    exact h.2 vs _ hvs hback

mutual

theorem paste_law : (d : Doc) → (n : Nat) → (r : Bytes) → d.Framed → d.size ≤ n →
    Delimited r → Quiet r → Law d n r
  | .raw t, n + 1, r, hd, _, hr, _ => raw_law hd hr
  | .int m, n + 1, r, _, _, hr, _ =>
    ⟨fun _ => ⟨.num m 0, value_decimal m n hr, rfl⟩, fun _ _ _ _ => True.intro⟩
  | .str t, n + 1, r, _, _, _, hquiet => str_law t hquiet
  | .obj [], n + 1, r, _, _, _, _ =>
    ⟨fun _ => ⟨.obj [], rfl, True.intro⟩, fun _ _ _ _ => True.intro⟩
  | .obj ((k, d) :: ms), n + 2, r, hd, hn, hr, hquiet =>
    obj_law (first_law hd.1.1 hd.2.1
      (paste_law d n _ hd.2.2.1 (by simp only [size, sizeMembers] at hn; omega)
        (delimited_pasteMembers ms r) (quiet_pasteMembers ms hquiet))
      (pasteMembers_law ms n r hd.2.2.2 (by simp only [size, sizeMembers] at hn; omega) hquiet))
  | .arr [], n + 1, r, _, _, _, _ =>
    ⟨fun _ => ⟨.arr [], rfl, [], rfl, rfl⟩, fun _ _ _ _ => True.intro⟩
  | .arr (.obj ms :: ds), n + 2, r, hd, hn, hr, hquiet =>
    arr_law (firstElement_law
      (paste_law (.obj ms) n _ hd.2.1 (by simp only [size, sizeElements] at hn ⊢; omega)
        (delimited_pasteElements ds r) (quiet_pasteElements ds r hd.2.2 hquiet))
      (pasteElements_law ds n r hd.2.2 (by simp only [size, sizeElements] at hn; omega) hquiet))
  | .arr (.raw _ :: _), _, _, hd, _, _, _ => by obtain ⟨_, h⟩ := hd.1; cases h
  | .arr (.int _ :: _), _, _, hd, _, _, _ => by obtain ⟨_, h⟩ := hd.1; cases h
  | .arr (.str _ :: _), _, _, hd, _, _, _ => by obtain ⟨_, h⟩ := hd.1; cases h
  | .arr (.arr _ :: _), _, _, hd, _, _, _ => by obtain ⟨_, h⟩ := hd.1; cases h

theorem pasteMembers_law : (ms : List (Bytes × Doc)) → (n : Nat) → (r : Bytes) →
    framedMembers ms → sizeMembers ms ≤ n → Quiet r → MembersLaw ms n r
  | [], _, _, _, _, _ =>
    ⟨fun _ => ⟨[], rfl, True.intro, rfl⟩, fun _ _ _ _ => True.intro⟩
  | (k, d) :: ms, n + 1, r, hd, hn, hquiet =>
    first_law hd.1.1 hd.2.1
      (paste_law d n _ hd.2.2.1 (by simp only [sizeMembers] at hn; omega)
        (delimited_pasteMembers ms r) (quiet_pasteMembers ms hquiet))
      (pasteMembers_law ms n r hd.2.2.2 (by simp only [sizeMembers] at hn; omega) hquiet)

theorem pasteElements_law : (ds : List Doc) → (n : Nat) → (r : Bytes) →
    framedElements ds → sizeElements ds ≤ n → Quiet r → ElementsLaw ds n r
  | [], _, _, _, _, _ => ⟨fun _ => ⟨[], rfl, rfl⟩, fun _ _ _ _ => True.intro⟩
  | d :: ds, n + 1, r, hd, hn, hquiet =>
    firstElement_law
      (paste_law d n _ hd.2.1 (by simp only [sizeElements] at hn; omega)
        (delimited_pasteElements ds r) (quiet_pasteElements ds r hd.2.2 hquiet))
      (pasteElements_law ds n r hd.2.2 (by simp only [sizeElements] at hn; omega) hquiet)

end

/-! ## Whole texts -/

theorem Settled.length_pos {t : Bytes} (h : Settled t) : 0 < t.length := by
  apply List.length_pos_iff.mpr
  rintro rfl
  rcases h.2 with ⟨v, hv⟩ | hrefused
  · cases hv 0 [] delimited_nil
  · cases hrefused 1 [0x22, 0x22]

mutual

/-- The text is long enough to bound the nesting. -/
theorem size_le_length : (d : Doc) → (r : Bytes) → d.Framed →
    d.size + r.length ≤ (d.paste r).length
  | .raw t, r, hd => by
    have hpos := Settled.length_pos hd
    rw [paste, size, List.length_append]
    omega
  | .int n, r, _ => by
    have hpos : 0 < (decimal n).length := List.length_pos_iff.mpr (decimal_ne_nil n)
    rw [paste, size, List.length_append]
    omega
  | .str t, r, _ => by
    rw [paste, size, List.length_cons, List.length_append, List.length_cons]
    omega
  | .obj [], r, _ => by
    rw [paste, size, sizeMembers, List.length_cons, List.length_cons]
    omega
  | .obj ((k, d) :: ms), r, hd => by
    have hlen := size_le_length d (pasteMembers ms r) hd.2.2.1
    have hms := sizeMembers_le_length ms r hd.2.2.2
    rw [paste, size, sizeMembers]
    simp only [List.length_cons, List.length_append]
    omega
  | .arr [], r, _ => by
    rw [paste, size, sizeElements, List.length_cons, List.length_cons]
    omega
  | .arr (d :: ds), r, hd => by
    have hlen := size_le_length d (pasteElements ds r) hd.2.1
    have hds := sizeElements_le_length ds r hd.2.2
    rw [paste, size, sizeElements, List.length_cons]
    omega

theorem sizeMembers_le_length : (ms : List (Bytes × Doc)) → (r : Bytes) → framedMembers ms →
    sizeMembers ms + r.length + 1 ≤ (pasteMembers ms r).length
  | [], r, _ => by
    rw [pasteMembers, sizeMembers, List.length_cons]
    omega
  | (k, d) :: ms, r, hd => by
    have hlen := size_le_length d (pasteMembers ms r) hd.2.2.1
    have hms := sizeMembers_le_length ms r hd.2.2.2
    rw [pasteMembers, sizeMembers]
    simp only [List.length_cons, List.length_append]
    omega

theorem sizeElements_le_length : (ds : List Doc) → (r : Bytes) → framedElements ds →
    sizeElements ds + r.length + 1 ≤ (pasteElements ds r).length
  | [], r, _ => by
    rw [pasteElements, sizeElements, List.length_cons]
    omega
  | d :: ds, r, hd => by
    have hlen := size_le_length d (pasteElements ds r) hd.2.1
    have hds := sizeElements_le_length ds r hd.2.2
    rw [pasteElements, sizeElements, List.length_cons]
    omega

end

mutual

theorem paste_append : (d : Doc) → (r r' : Bytes) → d.paste r ++ r' = d.paste (r ++ r')
  | .raw t, r, r' => List.append_assoc t r r'
  | .int n, r, r' => List.append_assoc (decimal n) r r'
  | .str t, r, r' => by rw [paste, paste, List.cons_append, List.append_assoc, List.cons_append]
  | .obj [], _, _ => rfl
  | .obj ((k, d) :: ms), r, r' => by
    simp only [paste, List.cons_append, List.append_assoc, paste_append d,
      pasteMembers_append ms]
  | .arr [], _, _ => rfl
  | .arr (d :: ds), r, r' => by
    simp only [paste, List.cons_append, paste_append d, pasteElements_append ds]

theorem pasteMembers_append : (ms : List (Bytes × Doc)) → (r r' : Bytes) →
    pasteMembers ms r ++ r' = pasteMembers ms (r ++ r')
  | [], _, _ => rfl
  | (k, d) :: ms, r, r' => by
    simp only [pasteMembers, List.cons_append, List.append_assoc, paste_append d,
      pasteMembers_append ms]

theorem pasteElements_append : (ds : List Doc) → (r r' : Bytes) →
    pasteElements ds r ++ r' = pasteElements ds (r ++ r')
  | [], _, _ => rfl
  | d :: ds, r, r' => by
    simp only [pasteElements, List.cons_append, paste_append d, pasteElements_append ds]

end

/-- A text in front of another. -/
theorem paste_eq_append (d : Doc) (r : Bytes) : d.paste r = d.paste [] ++ r := by
  rw [paste_append, List.nil_append]

theorem value_paste {d : Doc} (hd : d.Framed) :
    (d.Clean → ∃ v, value ((d.paste []).length + 1) (d.paste []) = some (v, []) ∧
      d.GivesBack v) ∧
    ∀ v rest, value ((d.paste []).length + 1) (d.paste []) = some (v, rest) → d.GivesBack v →
      d.Clean :=
  paste_law d _ [] hd (Nat.le_succ_of_le (size_le_length d [] hd)) delimited_nil True.intro

end Doc

/-- A pasted text parses and gives back what was pasted exactly if its strings are
plain UTF-8 and its raw texts are values. -/
theorem parse_paste_iff {d : Doc} (hd : d.Framed) :
    (∃ v, parse (d.paste []) = some v ∧ d.GivesBack v) ↔ d.Clean ∧ d.Utf8 := by
  have hutf8 : IsUtf8 (d.paste []) ↔ d.Utf8 :=
    (Doc.isUtf8_paste d [] hd).trans (and_iff_left isUtf8_nil)
  obtain ⟨hread, hclean⟩ := Doc.value_paste hd
  unfold parse
  constructor
  · rintro ⟨v, hv, hback⟩
    split at hv
    next htext =>
      split at hv
      next w rest hw =>
        split at hv
        next =>
          cases hv
          exact ⟨hclean v rest hw hback, hutf8.mp htext⟩
        next => cases hv
      next => cases hv
    next => cases hv
  · rintro ⟨h, htext⟩
    obtain ⟨v, hv, hback⟩ := hread h
    refine ⟨v, ?_, hback⟩
    rw [if_pos (hutf8.mpr htext), hv]
    rfl

end TelemetryTestbed.Lib.Json

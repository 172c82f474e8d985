import Mathlib.Data.List.Induction

/-!
# Messages of several senders on one channel

Senders write messages to a channel one piece at a time, and a piece carries the
message it belongs to. `Framed` is the statement about what is on the channel:
the pieces of whole messages, one message after the other, and at the end some
pieces of one more. `follow` is the automaton of a reader that has to check it:
it knows the message that is partly in. On nonempty pieces the two say the same
(`framed_of_followAll`, `followAll_of_framed`), so a machine that writes to a
channel needs one invariant alone, where the reader stands.

The automaton is deterministic, and its state is the message that is partly in with the bytes
of it that have come. `Taken` is the invariant that ties that state to the pieces so far, and
`framed_of_followAll` reads the answer off it. A sender that dies within a message leaves a
last message that is not whole, which `Framed` allows only at the end.
-/

namespace TelemetryTestbed.Lib

variable {μ β : Type*} (content : μ → List β)

/-- The pieces of one message each. -/
def spread (blocks : List (μ × List (List β))) : List (μ × List β) :=
  blocks.flatMap fun m => m.2.map fun b => (m.1, b)

/-- Whole messages, and at the end a part of one. -/
def Framed (pieces : List (μ × List β)) : Prop :=
  ∃ (whole : List (μ × List (List β))) (last : Option (μ × List (List β))),
    pieces = spread (whole ++ last.toList) ∧
      (∀ m ∈ whole, m.2.flatten = content m.1) ∧
      ∀ m ∈ last, m.2.flatten <+: content m.1

theorem spread_cons (m : μ × List (List β)) (blocks : List (μ × List (List β))) :
    spread (m :: blocks) = m.2.map (fun b => (m.1, b)) ++ spread blocks :=
  List.flatMap_cons

theorem spread_append (blocks blocks' : List (μ × List (List β))) :
    spread (blocks ++ blocks') = spread blocks ++ spread blocks' :=
  List.flatMap_append

theorem spread_singleton (m : μ × List (List β)) :
    spread [m] = m.2.map fun b => (m.1, b) := by
  rw [spread_cons]
  exact List.append_nil _

/-- The bytes of one block. -/
theorem block_bytes (m : μ × List (List β)) :
    ((m.2.map fun b => (m.1, b)).map Prod.snd).flatten = m.2.flatten := by
  rw [List.map_map]
  exact congrArg List.flatten (List.map_id m.2)

variable {content} in
/-- The bytes of whole messages, each with a piece of its own. -/
theorem whole_bytes {blocks : List (μ × List (List β))}
    (h : ∀ m ∈ blocks, m.2.flatten = content m.1) :
    ∃ ms : List μ, ((spread blocks).map Prod.snd).flatten = (ms.map content).flatten ∧
      ∀ m ∈ ms, m ∈ (spread blocks).map Prod.fst := by
  induction blocks with
  | nil => exact ⟨[], rfl, fun _ hm => absurd hm List.not_mem_nil⟩
  | cons m blocks ih =>
    obtain ⟨ms, hbytes, hmem⟩ := ih fun x hx => h x (List.mem_cons_of_mem _ hx)
    have hm := h m List.mem_cons_self
    rw [spread_cons, List.map_append, List.map_append, List.flatten_append, block_bytes, hbytes]
    cases hbs : m.2 with
    | nil =>
      exact ⟨ms, rfl, fun x hx => List.mem_append_right _ (hmem x hx)⟩
    | cons b bs =>
      refine ⟨m.1 :: ms, ?_, fun x hx => ?_⟩
      · rw [← hbs, hm, List.map_cons, List.flatten_cons]
      · rcases List.mem_cons.mp hx with rfl | hx
        · exact List.mem_append_left _ List.mem_cons_self
        · exact List.mem_append_right _ (hmem x hx)

variable {content} in
/-- The bytes of the pieces are those of whole messages, and then a prefix of one. -/
theorem Framed.bytes {pieces : List (μ × List β)} (h : Framed content pieces) :
    ∃ (whole : List μ) (part : List β),
      (pieces.map Prod.snd).flatten = (whole.map content).flatten ++ part ∧
      (∀ m ∈ whole, m ∈ pieces.map Prod.fst) ∧
      (part = [] ∨ ∃ m ∈ pieces.map Prod.fst, part <+: content m) := by
  obtain ⟨whole, last, rfl, hwhole, hlast⟩ := h
  obtain ⟨ms, hbytes, hmem⟩ := whole_bytes hwhole
  rw [spread_append, List.map_append, List.map_append, List.flatten_append, hbytes]
  refine ⟨ms, _, rfl, fun m hm => List.mem_append_left _ (hmem m hm), ?_⟩
  cases last with
  | none => exact Or.inl rfl
  | some m =>
    have hm := hlast m rfl
    rw [Option.toList_some, spread_singleton, block_bytes]
    obtain ⟨msg, bs⟩ := m
    cases bs with
    | nil => exact Or.inl rfl
    | cons b bs =>
      refine Or.inr ⟨msg, List.mem_append_right _ List.mem_cons_self, ?_⟩
      exact hm

variable [DecidableEq β]

/-- The message `m` while `sent` of it is out; `none` before its first byte and
after its last. -/
def openOf (m : μ) (sent : List β) : Option (μ × List β) :=
  if sent = [] ∨ sent = content m then none else some (m, sent)

@[simp] theorem openOf_nil (m : μ) : openOf content m [] = none := if_pos (Or.inl rfl)

theorem openOf_whole (m : μ) : openOf content m (content m) = none := if_pos (Or.inr rfl)

variable [DecidableEq μ]

/-- The reader takes a piece: it starts a message, or goes on with the open one. -/
def follow : Option (μ × List β) → μ × List β → Option (Option (μ × List β))
  | none, (m, b) => if b <+: content m then some (openOf content m b) else none
  | some (m', sent), (m, b) =>
    if m' = m ∧ sent ++ b <+: content m then some (openOf content m (sent ++ b)) else none

/-- The reader takes all pieces. -/
def followAll (pieces : List (μ × List β)) : Option (Option (μ × List β)) :=
  pieces.foldlM (follow content) none

variable {content}

theorem followAll_concat (pieces : List (μ × List β)) (piece : μ × List β) :
    followAll content (pieces ++ [piece]) =
      (followAll content pieces).bind fun o => follow content o piece := by
  simp only [followAll, List.foldlM_append, List.foldlM_cons, List.foldlM_nil, bind_pure]
  rfl

variable (content) in
/-- A sender whose message is the open one, or that starts one, gets a piece in. -/
theorem follow_own {m : μ} {sent b rest : List β} {o : Option (μ × List β)}
    (ho : o = openOf content m sent) (hwhole : sent ++ b ++ rest = content m) (hb : b ≠ []) :
    follow content o (m, b) = some (openOf content m (sent ++ b)) := by
  have hpre : sent ++ b <+: content m := ⟨rest, hwhole⟩
  by_cases hsent : sent = []
  · rw [hsent, openOf_nil] at ho
    rw [hsent, List.nil_append] at hpre
    rw [ho, hsent, List.nil_append]
    exact if_pos hpre
  · have hne : sent ≠ content m := by
      intro e
      have hlen := congrArg List.length hwhole
      rw [← e, List.length_append, List.length_append] at hlen
      have := List.length_pos_iff.mpr hb
      omega
    rw [openOf, if_neg (fun hor => hor.elim hsent hne)] at ho
    rw [ho]
    exact if_pos ⟨rfl, hpre⟩

/-- A piece of another message than the open one is not taken. -/
theorem follow_other {m m' : μ} {sent b : List β} (h : m' ≠ m) :
    follow content (some (m', sent)) (m, b) = none :=
  if_neg fun hand => h hand.1

/-! ## The reader decides `Framed` -/

variable (content) in
theorem follow_block {m : μ} {bs : List (List β)} (hne : ∀ b ∈ bs, b ≠ [])
    (sent rest : List β) (hwhole : sent ++ bs.flatten ++ rest = content m) :
    (bs.map fun b => (m, b)).foldlM (follow content) (openOf content m sent) =
      some (openOf content m (sent ++ bs.flatten)) := by
  induction bs generalizing sent with
  | nil =>
    rw [List.flatten_nil, List.append_nil]
    rfl
  | cons b bs ih =>
    rw [List.flatten_cons, ← List.append_assoc] at hwhole
    have hstep := follow_own content (m := m) rfl
      (by rw [List.append_assoc] at hwhole; exact hwhole) (hne b List.mem_cons_self)
    rw [List.map_cons, List.foldlM_cons, hstep, List.flatten_cons, ← List.append_assoc]
    exact ih (fun b' hb' => hne b' (List.mem_cons_of_mem _ hb')) (sent ++ b) hwhole

theorem followAll_of_framed {pieces : List (μ × List β)} (hne : ∀ p ∈ pieces, p.2 ≠ [])
    (h : Framed content pieces) : ∃ o, followAll content pieces = some o := by
  obtain ⟨whole, last, rfl, hwhole, hlast⟩ := h
  have hblock : ∀ m ∈ whole ++ last.toList, ∀ b ∈ m.2, b ≠ [] := fun m hm b hb =>
    hne (m.1, b) (List.mem_flatMap.mpr ⟨m, hm, List.mem_map.mpr ⟨b, hb, rfl⟩⟩)
  have hall : ∀ ms : List (μ × List (List β)), (∀ m ∈ ms, ∀ b ∈ m.2, b ≠ []) →
      (∀ m ∈ ms, m.2.flatten = content m.1) → followAll content (spread ms) = some none := by
    intro ms hms hcontent
    induction ms using List.reverseRecOn with
    | nil => rfl
    | append_singleton ms m ih =>
      have hmem : m ∈ ms ++ [m] := List.mem_append_right _ List.mem_cons_self
      have hcontent' : [] ++ m.2.flatten = content m.1 := hcontent m hmem
      have hm := follow_block content (hms m hmem) [] []
        (by rw [List.append_nil]; exact hcontent')
      rw [openOf_nil, hcontent', openOf_whole] at hm
      have hms' := ih (fun x hx => hms x (List.mem_append_left _ hx))
        fun x hx => hcontent x (List.mem_append_left _ hx)
      unfold followAll at hms' ⊢
      rw [spread_append, List.foldlM_append]
      rw [hms', spread_singleton]
      exact hm
  have hfirst := hall whole (fun m hm => hblock m (List.mem_append_left _ hm)) hwhole
  cases last with
  | none =>
    rw [Option.toList_none, List.append_nil]
    exact ⟨none, hfirst⟩
  | some m =>
    obtain ⟨rest, hrest⟩ := hlast m rfl
    have hm := follow_block content
      (hblock m (List.mem_append_right _ List.mem_cons_self)) [] rest hrest
    rw [openOf_nil] at hm
    refine ⟨openOf content m.1 ([] ++ m.2.flatten), ?_⟩
    unfold followAll at hfirst ⊢
    rw [spread_append, List.foldlM_append]
    rw [hfirst, Option.toList_some, spread_singleton]
    exact hm

/-- What the reader knows of the pieces it has taken. -/
def Taken (content : μ → List β) (pieces : List (μ × List β)) (o : Option (μ × List β)) :
    Prop :=
  ∃ whole last, pieces = spread (whole ++ last) ∧
    (∀ m ∈ whole, m.2.flatten = content m.1) ∧
    match o with
    | none => last = []
    | some (m, sent) => ∃ bs, last = [(m, bs)] ∧ bs.flatten = sent ∧ sent <+: content m

omit [DecidableEq μ] in
/-- A new piece at the end of the block of its message. -/
theorem Taken.put {pieces : List (μ × List β)} {m : μ} {b : List β}
    {whole : List (μ × List (List β))} {bs : List (List β)}
    (hpieces : pieces = spread (whole ++ [(m, bs)]))
    (hwhole : ∀ m ∈ whole, m.2.flatten = content m.1) (hb : b ≠ [])
    (hpre : bs.flatten ++ b <+: content m) :
    Taken content (pieces ++ [(m, b)]) (openOf content m (bs.flatten ++ b)) := by
  have hflat : (bs ++ [b]).flatten = bs.flatten ++ b := by
    rw [List.flatten_append, List.flatten_singleton]
  have hnew : pieces ++ [(m, b)] = spread (whole ++ [(m, bs ++ [b])]) := by
    rw [hpieces, spread_append, spread_append, spread_singleton, spread_singleton,
      List.map_append, List.map_singleton, List.append_assoc]
  by_cases hlast : bs.flatten ++ b = content m
  · rw [hlast, openOf_whole]
    refine ⟨whole ++ [(m, bs ++ [b])], [], ?_, fun x hx => ?_, rfl⟩
    · rw [hnew, List.append_nil]
    · rcases List.mem_append.mp hx with hx | hx
      · exact hwhole x hx
      · rw [List.mem_singleton.mp hx, hflat, hlast]
  · have hne : bs.flatten ++ b ≠ [] := List.append_ne_nil_of_right_ne_nil _ hb
    rw [openOf, if_neg fun hor => hor.elim hne hlast]
    exact ⟨whole, [(m, bs ++ [b])], hnew, hwhole, bs ++ [b], rfl, hflat, hpre⟩

theorem taken_of_followAll {pieces : List (μ × List β)} {o : Option (μ × List β)}
    (hne : ∀ p ∈ pieces, p.2 ≠ []) (h : followAll content pieces = some o) :
    Taken content pieces o := by
  induction pieces using List.reverseRecOn generalizing o with
  | nil =>
    cases h
    exact ⟨[], [], rfl, fun m hm => absurd hm List.not_mem_nil, rfl⟩
  | append_singleton pieces piece ih =>
    obtain ⟨m, b⟩ := piece
    have hb : b ≠ [] := hne (m, b) (List.mem_append_right _ List.mem_cons_self)
    rw [followAll_concat] at h
    obtain ⟨o', ho', hfollow⟩ := Option.bind_eq_some_iff.mp h
    obtain ⟨whole, last, hpieces, hwhole, hlast⟩ :=
      ih (fun p hp => hne p (List.mem_append_left _ hp)) ho'
    cases o' with
    | none =>
      obtain ⟨hpre, ho⟩ := Option.ite_none_right_eq_some.mp hfollow
      have hempty : pieces = spread (whole ++ [(m, [])]) := by
        rw [hpieces, show last = [] from hlast, spread_append, spread_append,
          spread_singleton]
        rfl
      exact Option.some.inj ho ▸ Taken.put hempty hwhole hb hpre
    | some part =>
      obtain ⟨m', sent⟩ := part
      obtain ⟨⟨rfl, hpre⟩, ho⟩ := Option.ite_none_right_eq_some.mp hfollow
      obtain ⟨bs, hbs, rfl, _⟩ := hlast
      exact Option.some.inj ho ▸ Taken.put (hbs ▸ hpieces) hwhole hb hpre

theorem framed_of_followAll {pieces : List (μ × List β)} {o : Option (μ × List β)}
    (hne : ∀ p ∈ pieces, p.2 ≠ []) (h : followAll content pieces = some o) :
    Framed content pieces := by
  obtain ⟨whole, last, hpieces, hwhole, hlast⟩ := taken_of_followAll hne h
  cases o with
  | none =>
    refine ⟨whole, none, ?_, hwhole, nofun⟩
    rw [hpieces, show last = [] from hlast]
    rfl
  | some part =>
    obtain ⟨bs, hbs, hflat, hpre⟩ := hlast
    refine ⟨whole, some (part.1, bs), ?_, hwhole, fun m hm => ?_⟩
    · rw [hpieces, hbs]
      rfl
    · cases hm
      exact hflat ▸ hpre

end TelemetryTestbed.Lib

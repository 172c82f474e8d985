import TelemetryTestbed.Laws.Ui.Buffer

/-!
# When the buffer is a faithful view

Live frames come in order, and so do the replies as far as their newest samples go
(`Queues`). But a reply repeats what was broadcast before the query, and a frame what
the reply before it had already. A run keeps the buffer in order exactly if every
message that the browser handles continues it (`faithful_iff_continues`).

What is on its way is part of the invariant: the samples committed and not yet broadcast,
those on the wire, and the replies with their newest samples. A reconnect empties the wire but
not the buffer, so the first reply of the new connection may repeat what the page has, and
then does not continue it.
-/

namespace TelemetryTestbed.Ui

open TelemetryTestbed.Lib

def Viewer.wire (v : Viewer) : List Message := (v.link.map Link.wire).getD []

/-- The message that the browser handles next continues the buffer. -/
def Viewer.Continues (v : Viewer) : Action → Prop
  | .handle => ∀ msg ∈ v.wire.head?, v.app.Fits msg
  | _ => True

instance Viewer.decidableContinues (v : Viewer) : ∀ a, Decidable (v.Continues a)
  | .handle => inferInstanceAs (Decidable (∀ msg ∈ v.wire.head?, v.app.Fits msg))
  | .commit _ | .broadcast | .query | .queryFailed | .reply | .connect | .onopen _ | .disconnect
  | .requestHistory _ | .clearAll | .togglePause => .isTrue True.intro

/-! ## What is on its way -/

def Message.live? : Message → Option Nat
  | .telemetry s => some s
  | _ => none

def Message.top? : Message → Option Nat
  | .history items => some (top items)
  | _ => none

def Link.lives (l : Link) : List Nat := l.wire.filterMap Message.live?

def Link.tops (l : Link) : List Nat :=
  l.wire.filterMap Message.top? ++ l.answer.toList.map top

/-- The replies on their way are in order, each in itself. -/
def Link.Sorted (l : Link) : Prop :=
  ∀ items, .history items ∈ l.wire ∨ items ∈ l.answer → items.IsChain (· < ·)

/-- The live frames on their way, and the next one. -/
def Viewer.lives (v : Viewer) : List Nat := v.link.elim [] Link.lives ++ [v.announced]

/-- The tops of the replies on their way, and of one asked for now. -/
def Viewer.tops (v : Viewer) : List Nat := v.link.elim [] Link.tops ++ [v.committed]

/-- The invariant of what is on its way: the live frames come in order, the newest samples of
the replies do not go back, and each reply is in order. -/
structure Queues (v : Viewer) : Prop where
  lives : v.lives.Pairwise (· < ·)
  tops : v.tops.Pairwise (· ≤ ·)
  sorted : ∀ l ∈ v.link, l.Sorted

variable {v v' : Viewer} {l : Link} {a : Action}

/-! ## What a step does -/

/-- What a step does to the connection alone, by the part of it that takes the step. -/
inductive LinkStep (committed : Nat) : Option Link → Option Link → Prop
  | query (l : Link) (last : Nat) (asked : List Nat) (hanswer : l.answer = none) :
      LinkStep committed (some l)
        (some { l with asked := asked, answer := some (queryHistory committed last) })
  | queryFailed (l : Link) (asked : List Nat) (hanswer : l.answer = none) :
      LinkStep committed (some l) (some ⟨l.opened, asked, none, l.wire ++ [.error]⟩)
  | reply (l : Link) (items : List Nat) (hanswer : l.answer = some items) :
      LinkStep committed (some l) (some ⟨l.opened, l.asked, none, l.wire ++ [.history items]⟩)
  | ask (l : Link) (opened : Bool) (asked : List Nat) :
      LinkStep committed (some l) (some ⟨opened, asked, l.answer, l.wire⟩)
  | connect (link : Option Link) : LinkStep committed link (some .connecting)
  | disconnect (link : Option Link) : LinkStep committed link none

/-- Everything but a message handled moves the streams on, or is an act of the user on the
page. -/
theorem step_cases (h : v.step a = some v') (ha : a ≠ .handle) :
    (∃ n, v' = { v with committed := v.committed + n }) ∨
    v' = { v with
      announced := v.announced + 1
      link := v.link.map fun l => { l with wire := l.wire ++ [.telemetry v.announced] } } ∨
    (∃ link, LinkStep v.committed v.link link ∧ v' = { v with link := link }) ∨
    v' = { v with app := v.app.clearAll } ∨ v' = { v with app := v.app.togglePause } := by
  have hlink : ∀ {link : Option Link}, LinkStep v.committed v.link link →
      some { v with link := link } = some v' →
      ∃ link, LinkStep v.committed v.link link ∧ v' = { v with link := link } :=
    fun hstep heq => ⟨_, hstep, (Option.some.inj heq).symm⟩
  cases a with
  | commit n => exact Or.inl ⟨n, (Option.some.inj h).symm⟩
  | broadcast =>
    obtain ⟨-, h⟩ := Option.ite_none_right_eq_some.mp h
    exact Or.inr (Or.inl (Option.some.inj h).symm)
  | query =>
    obtain ⟨l, hl, h⟩ := Option.bind_eq_some_iff.mp h
    split at h
    next last asked _ hanswer =>
      exact Or.inr (Or.inr (Or.inl (hlink (hl ▸ .query l last asked hanswer) h)))
    next => cases h
  | queryFailed =>
    obtain ⟨l, hl, h⟩ := Option.bind_eq_some_iff.mp h
    split at h
    next last asked _ hanswer =>
      have hstep := @LinkStep.queryFailed v.committed l asked hanswer
      rw [← hl, ← hanswer] at hstep
      exact Or.inr (Or.inr (Or.inl (hlink hstep h)))
    next => cases h
  | reply =>
    obtain ⟨l, hl, h⟩ := Option.bind_eq_some_iff.mp h
    obtain ⟨items, hanswer, h⟩ := Option.bind_eq_some_iff.mp h
    exact Or.inr (Or.inr (Or.inl (hlink (hl ▸ .reply l items hanswer) h)))
  | handle => exact absurd rfl ha
  | connect => exact Or.inr (Or.inr (Or.inl (hlink (.connect v.link) h)))
  | onopen value =>
    obtain ⟨l, hl, h⟩ := Option.bind_eq_some_iff.mp h
    split at h
    next => cases h
    next => exact Or.inr (Or.inr (Or.inl (hlink (hl ▸ .ask l true _) h)))
  | disconnect => exact Or.inr (Or.inr (Or.inl (hlink (.disconnect v.link) h)))
  | requestHistory value =>
    refine Or.inr (Or.inr (Or.inl (hlink ?_ h)))
    cases v.link with
    | none => exact .disconnect none
    | some l =>
      rw [Option.map_some]
      split
      · exact .ask l l.opened _
      · exact .ask l l.opened l.asked
  | clearAll => exact Or.inr (Or.inr (Or.inr (Or.inl (Option.some.inj h).symm)))
  | togglePause => exact Or.inr (Or.inr (Or.inr (Or.inr (Option.some.inj h).symm)))

/-! ## What the step leaves -/

/-- Nothing comes that could not have come before: whatever lies below all frames or replies on
their way still does. -/
structure Later (v v' : Viewer) : Prop where
  lives : ∀ y, Below y v.lives → Below y v'.lives
  tops : ∀ y, Below y v.tops → Below y v'.tops

theorem Later.order (h : Later v v') (ho : Order v.lives v.tops app) :
    Order v'.lives v'.tops app where
  samples y hy := (ho.samples y hy).imp (h.lives y) (h.tops y)
  shown x hx := (ho.shown x hx).imp_right (And.imp (h.lives x) (h.tops 0))

theorem below_concat {y n : Nat} {front : List Nat} :
    Below y (front ++ [n]) ↔ Below y front ∧ y < n := by
  simp only [Below, List.forall_mem_append, List.forall_mem_singleton]

theorem pairwise_concat {R : Nat → Nat → Prop} {front : List Nat} {n : Nat} :
    (front ++ [n]).Pairwise R ↔ front.Pairwise R ∧ ∀ m ∈ front, R m n := by
  simp only [List.pairwise_append, List.pairwise_singleton, true_and, List.mem_singleton, forall_eq]

/-- The newest samples end with the last committed one. -/
theorem queryHistory_sorted (committed limit : Nat) :
    (queryHistory committed limit).IsChain (· < ·) ∧
      top (queryHistory committed limit) = committed := by
  have hlimit : 0 < (if limit = 0 then 300 else min 5000 limit) := by
    split
    · decide
    · omega
  constructor
  · rw [List.isChain_iff_pairwise]
    exact List.pairwise_lt_range.sublist (rtake_suffix _ _).sublist
  · rw [top, queryHistory, getLast?_rtake hlimit, List.getLast?_range]
    split
    next h => exact h.symm
    next h =>
      rw [Option.map_some, Option.getD_some]
      omega

theorem Queues.of_eq (hq : Queues v) (hlives : v'.lives = v.lives) (htops : v'.tops = v.tops)
    (hsorted : ∀ l ∈ v'.link, l.Sorted) : Queues v' ∧ Later v v' := by
  refine ⟨⟨?_, ?_, hsorted⟩, ⟨fun y hy => ?_, fun y hy => ?_⟩⟩
  · rw [hlives]
    exact hq.lives
  · rw [htops]
    exact hq.tops
  · rwa [hlives]
  · rwa [htops]

/-- A new connection, or none, has nothing on its way. -/
theorem idle (v : Viewer) {link : Option Link} (hlives : link.elim [] Link.lives = [])
    (htops : link.elim [] Link.tops = []) (hsorted : ∀ l ∈ link, l.Sorted) :
    Queues { v with link := link } ∧ Later v { v with link := link } := by
  have hl : Viewer.lives { v with link := link } = [v.announced] := by
    rw [Viewer.lives, hlives, List.nil_append]
  have ht : Viewer.tops { v with link := link } = [v.committed] := by
    rw [Viewer.tops, htops, List.nil_append]
  refine ⟨⟨?_, ?_, hsorted⟩, ⟨fun y hy => ?_, fun y hy => ?_⟩⟩
  · rw [hl]
    exact List.pairwise_singleton _ _
  · rw [ht]
    exact List.pairwise_singleton _ _
  · rw [hl]
    exact fun i hi => hy i (List.mem_append_right _ hi)
  · rw [ht]
    exact fun i hi => hy i (List.mem_append_right _ hi)

theorem Queues.commit (hq : Queues v) (n : Nat) :
    Queues { v with committed := v.committed + n } ∧
      Later v { v with committed := v.committed + n } := by
  obtain ⟨hfront, hle⟩ := pairwise_concat.mp hq.tops
  refine ⟨⟨hq.lives, pairwise_concat.mpr ⟨hfront, fun m hm => ?_⟩, hq.sorted⟩,
    ⟨fun y hy => hy, fun y hy => ?_⟩⟩
  · exact (hle m hm).trans (Nat.le_add_right v.committed n)
  · obtain ⟨hbelow, hlast⟩ := below_concat.mp hy
    exact below_concat.mpr ⟨hbelow, hlast.trans_le (Nat.le_add_right v.committed n)⟩

theorem Queues.broadcast (hq : Queues v) :
    let v' : Viewer := { v with
      announced := v.announced + 1
      link := v.link.map fun l => { l with wire := l.wire ++ [.telemetry v.announced] } }
    Queues v' ∧ Later v v' := by
  obtain ⟨committed, announced, link, app⟩ := v
  intro v'
  cases link with
  | none =>
    refine ⟨⟨List.pairwise_singleton _ _, hq.tops, hq.sorted⟩, ⟨fun y hy i hi => ?_, fun y hy => hy⟩⟩
    have hlast : y < announced := hy announced List.mem_cons_self
    rw [List.mem_singleton.mp hi]
    exact hlast.trans (Nat.lt_succ_self announced)
  | some l =>
    have hlives : v'.lives = l.lives ++ [announced] ++ [announced + 1] := by
      simp only [v', Viewer.lives, Option.map_some, Option.elim_some, Link.lives,
        List.filterMap_append, List.filterMap_cons, Message.live?, List.filterMap_nil]
    have htops : v'.tops = Viewer.tops ⟨committed, announced, some l, app⟩ := by
      simp only [v', Viewer.tops, Option.map_some, Option.elim_some, Link.tops,
        List.filterMap_append, List.filterMap_cons, Message.top?, List.filterMap_nil,
        List.append_nil]
    have hold : (l.lives ++ [announced]).Pairwise (· < ·) := hq.lives
    refine ⟨⟨?_, htops ▸ hq.tops, ?_⟩, ⟨fun y hy => ?_, fun y hy => htops ▸ hy⟩⟩
    · rw [hlives, pairwise_concat]
      refine ⟨hold, fun m hm => ?_⟩
      obtain hm | hm := List.mem_append.mp hm
      · exact ((pairwise_concat.mp hold).2 m hm).trans (Nat.lt_succ_self announced)
      · rw [List.mem_singleton.mp hm]
        exact Nat.lt_succ_self announced
    · intro l' hl' items hitems
      obtain rfl := Option.some.inj hl'
      apply hq.sorted l rfl items
      refine hitems.imp_left fun hmem => ?_
      obtain hmem | hmem := List.mem_append.mp hmem
      · exact hmem
      · cases List.mem_singleton.mp hmem
    · have hy' : Below y (l.lives ++ [announced]) := hy
      rw [hlives]
      refine below_concat.mpr ⟨hy', ?_⟩
      exact (below_concat.mp hy').2.trans (Nat.lt_succ_self announced)

/-- The answer of a query ends with the last committed sample. -/
theorem Queues.query (hq : Queues v) {last : Nat} {asked : List Nat} (hl : v.link = some l)
    (hanswer : l.answer = none) :
    let v' : Viewer := { v with link := some { l with
      asked := asked
      answer := some (queryHistory v.committed last) } }
    Queues v' ∧ Later v v' := by
  obtain ⟨committed, announced, link, app⟩ := v
  obtain rfl : link = some l := hl
  intro v'
  obtain ⟨hsorted, htop⟩ := queryHistory_sorted committed last
  have hold : Viewer.tops ⟨committed, announced, some l, app⟩ =
      l.wire.filterMap Message.top? ++ [committed] := by
    rw [Viewer.tops, Option.elim_some, Link.tops, hanswer, Option.toList_none, List.map_nil,
      List.append_nil]
  have htops : v'.tops = l.wire.filterMap Message.top? ++ [committed] ++ [committed] := by
    simp only [v', Viewer.tops, Option.elim_some, Link.tops, Option.toList_some, List.map_cons,
      List.map_nil, htop]
  have hpairwise := hq.tops
  rw [hold] at hpairwise
  refine ⟨⟨hq.lives, ?_, ?_⟩, ⟨fun y hy => hy, fun y hy => ?_⟩⟩
  · rw [htops, pairwise_concat]
    refine ⟨hpairwise, fun m hm => ?_⟩
    obtain hm | hm := List.mem_append.mp hm
    · exact (pairwise_concat.mp hpairwise).2 m hm
    · exact (List.mem_singleton.mp hm).le
  · intro l' hl' items hitems
    obtain rfl := Option.some.inj hl'
    obtain hitems | hitems := hitems
    · exact hq.sorted l rfl items (Or.inl hitems)
    · obtain rfl := Option.some.inj hitems
      exact hsorted
  · rw [hold] at hy
    rw [htops]
    exact below_concat.mpr ⟨hy, (below_concat.mp hy).2⟩

/-- An answer that is sent is on its way as before. -/
theorem Queues.send (hq : Queues v) {msg : Message} {asked : List Nat} (hl : v.link = some l)
    (hmsg : msg.live? = none) (htop : msg.top?.toList = l.answer.toList.map top)
    (hitems : ∀ items, msg = .history items → items ∈ l.answer) :
    let v' : Viewer := { v with link := some ⟨l.opened, asked, none, l.wire ++ [msg]⟩ }
    Queues v' ∧ Later v v' := by
  obtain ⟨committed, announced, link, app⟩ := v
  obtain rfl : link = some l := hl
  intro v'
  apply hq.of_eq
  · simp only [v', Viewer.lives, Option.elim_some, Link.lives, List.filterMap_append,
      List.filterMap_cons, hmsg, List.filterMap_nil, List.append_nil]
  · have hlast : [msg].filterMap Message.top? = msg.top?.toList := by
      rw [List.filterMap_cons, List.filterMap_nil]
      cases msg.top? <;> rfl
    simp only [v', Viewer.tops, Option.elim_some, Link.tops, List.filterMap_append, hlast, htop,
      Option.toList_none, List.map_nil, List.append_nil]
  · intro l' hl' items hmem
    obtain rfl := Option.some.inj hl'
    obtain hmem | hmem := hmem
    · obtain hmem | hmem := List.mem_append.mp hmem
      · exact hq.sorted l rfl items (Or.inl hmem)
      · exact hq.sorted l rfl items (Or.inr (hitems items (List.mem_singleton.mp hmem).symm))
    · cases hmem

/-- A request is on its way to the gateway only. -/
theorem Queues.ask (hq : Queues v) (hl : v.link = some l) (opened : Bool) (asked : List Nat) :
    let v' : Viewer := { v with link := some ⟨opened, asked, l.answer, l.wire⟩ }
    Queues v' ∧ Later v v' := by
  obtain ⟨committed, announced, link, app⟩ := v
  obtain rfl : link = some l := hl
  intro v'
  have hlives : v'.lives = Viewer.lives ⟨committed, announced, some l, app⟩ := rfl
  apply hq.of_eq hlives rfl
  intro l' hl' items hitems
  obtain rfl := Option.some.inj hl'
  exact hq.sorted l rfl items hitems

/-- A step of the connection lets the streams go on. -/
theorem Queues.link {link : Option Link} (hq : Queues v)
    (h : LinkStep v.committed v.link link) :
    Queues { v with link := link } ∧ Later v { v with link := link } := by
  obtain ⟨committed, announced, _, app⟩ := v
  cases h with
  | query l last asked hanswer => exact hq.query rfl hanswer
  | queryFailed l asked hanswer =>
    exact hq.send rfl rfl (by rw [hanswer]; rfl) fun items hitems => by cases hitems
  | reply l items hanswer =>
    exact hq.send rfl rfl (by rw [hanswer]; rfl) fun items' hitems => by
      cases hitems
      exact hanswer
  | ask l opened asked => exact hq.ask rfl opened asked
  | connect link =>
    refine idle _ rfl rfl fun l hl items hitems => ?_
    obtain rfl := Option.some.inj hl
    obtain hitems | hitems := hitems
    · cases hitems
    · cases hitems
  | disconnect link => exact idle _ rfl rfl fun l hl => by cases hl

/-- Everything but a message handled lets the streams go on. -/
theorem queues_step (h : v.step a = some v') (ha : a ≠ .handle) (hq : Queues v) :
    Queues v' ∧ Later v v' := by
  obtain ⟨n, rfl⟩ | rfl | ⟨link, hlink, rfl⟩ | rfl | rfl := step_cases h ha
  · exact hq.commit n
  · exact hq.broadcast
  · exact hq.link hlink
  · exact hq.of_eq rfl rfl hq.sorted
  · exact hq.of_eq rfl rfl hq.sorted

/-! ## Runs -/

/-- What the streams and the buffer are in every state of a run that keeps the buffer. -/
structure InView (v : Viewer) : Prop where
  queues : Queues v
  order : Order v.lives v.tops v.app
  faithful : v.app.Faithful

theorem inView_init : InView Viewer.init where
  queues := ⟨List.pairwise_singleton _ _, List.pairwise_singleton _ _, fun l hl => by cases hl⟩
  order := ⟨fun y hy => absurd hy List.not_mem_nil, fun x hx => absurd hx List.not_mem_nil⟩
  faithful := ⟨List.nodup_nil, List.Pairwise.nil, List.Pairwise.nil⟩

/-- A message that is handled leaves the streams behind it. -/
theorem handle_step (h : v.step .handle = some v') (hv : InView v) :
    (v'.app.Faithful ↔ v.Continues .handle) ∧ (v.Continues .handle → InView v') := by
  obtain ⟨l, hl, h⟩ := Option.bind_eq_some_iff.mp h
  split at h
  next msg wire hopened hwire =>
    obtain rfl := Option.some.inj h
    obtain ⟨committed, announced, link, app⟩ := v
    obtain rfl : link = some l := hl
    obtain ⟨opened, asked, answer, _⟩ := l
    obtain rfl : _ = msg :: wire := hwire
    obtain ⟨⟨hlives, htops, hsorted⟩, horder, hfaithful⟩ := hv
    have hrest : Link.Sorted ⟨opened, asked, answer, wire⟩ := fun items hitems =>
      hsorted _ rfl items (hitems.imp_left (List.mem_cons_of_mem msg))
    have hlink : ∀ l' ∈ some (⟨opened, asked, answer, wire⟩ : Link), l'.Sorted := fun l' hl' => by
      obtain rfl := Option.some.inj hl'
      exact hrest
    have hcontinues : Viewer.Continues ⟨committed, announced,
        some ⟨opened, asked, answer, msg :: wire⟩, app⟩ .handle ↔ app.Fits msg :=
      ⟨fun hall => hall msg rfl, fun hfits msg' hmsg => Option.some.inj hmsg ▸ hfits⟩
    rw [hcontinues]
    cases msg with
    | telemetry s =>
      obtain ⟨hbelow, hbehind⟩ := List.pairwise_cons.mp hlives
      have hiff := faithful_handleTelemetry hfaithful horder
      refine ⟨hiff, fun hfits => ⟨⟨hbehind, htops, hlink⟩, ?_, hiff.mpr hfits⟩⟩
      exact order_handleTelemetry horder hbelow hfits
    | history items =>
      obtain ⟨hbelow, hbehind⟩ := List.pairwise_cons.mp htops
      have hitems := hsorted _ rfl items (Or.inl List.mem_cons_self)
      have hiff := faithful_handleHistory hfaithful horder hitems
      refine ⟨hiff, fun hfits => ⟨⟨hlives, hbehind, hlink⟩, ?_, hiff.mpr hfits⟩⟩
      exact order_handleHistory hfaithful horder hitems hbelow hfits
    | error =>
      exact ⟨iff_of_true hfaithful True.intro,
        fun _ => ⟨⟨hlives, htops, hlink⟩, horder, hfaithful⟩⟩
  next => cases h

/-- Only a message and the user change what the page holds. -/
theorem app_step (h : v.step a = some v') (ha : a ≠ .handle) :
    v'.app = v.app ∨ v'.app = v.app.clearAll ∨ v'.app = v.app.togglePause := by
  obtain ⟨n, rfl⟩ | rfl | ⟨link, -, rfl⟩ | rfl | rfl := step_cases h ha
  · exact Or.inl rfl
  · exact Or.inl rfl
  · exact Or.inl rfl
  · exact Or.inr (Or.inl rfl)
  · exact Or.inr (Or.inr rfl)

/-- What anything but a message does to the buffer. -/
theorem inView_step (h : v.step a = some v') (ha : a ≠ .handle) (hv : InView v) : InView v' := by
  obtain ⟨hqueues, hlater⟩ := queues_step h ha hv.queues
  have horder := hlater.order hv.order
  obtain happ | happ | happ := app_step h ha
  · refine ⟨hqueues, ?_, ?_⟩
    · rw [happ]
      exact horder
    · rw [happ]
      exact hv.faithful
  · refine ⟨hqueues, ?_, ?_⟩
    · rw [happ]
      exact ⟨fun y hy => absurd hy List.not_mem_nil, fun x hx => absurd hx List.not_mem_nil⟩
    · rw [happ]
      exact ⟨List.nodup_nil, List.Pairwise.nil, List.Pairwise.nil⟩
  · refine ⟨hqueues, ?_, ?_⟩
    · rw [happ]
      exact ⟨horder.samples, horder.shown⟩
    · rw [happ]
      exact ⟨hv.faithful.once, hv.faithful.increasing, hv.faithful.latest⟩

theorem continues_of_ne (ha : a ≠ .handle) : v.Continues a := by
  cases a with
  | handle => exact absurd rfl ha
  | _ => exact True.intro

/-- **When the buffer is a faithful view.** The viewer, its gateway and the connection between
them take steps in any order: commits, broadcasts, history queries and their replies, the
handlers of the page, reconnects and what the user does. In every state of a run the buffer has
the samples in the order in which they were received, each once, and shows the newest of them
last, exactly if every message that the browser handles continues the buffer. `Continues` looks
at the message and at the buffer before it: a live frame comes behind the last sample; a reply
that does not fill the buffer begins behind it; and one that is shown does not go back. -/
theorem faithful_iff_continues {as : List Action} (h : exec Viewer.step Viewer.init as = some v) :
    Guarded Viewer.step Viewer.Continues Viewer.init as ↔
      ∀ pre post w, as = pre ++ post → exec Viewer.step Viewer.init pre = some w →
        w.app.Faithful := by
  have hscope : Guarded Viewer.step (fun _ _ => True) Viewer.init as :=
    Guarded.of_forall (fun _ _ => True.intro) _ _
  refine guarded_iff_forall_reached (I := InView) (fun w hw => hw.faithful) ?_ ?_ inView_init
    hscope h
  · intro s a s' hs _ hcontinues hstep
    by_cases ha : a = .handle
    · subst ha
      exact (handle_step hstep hs).2 hcontinues
    · exact inView_step hstep ha hs
  · intro s a s' hs _ hstep hfaithful
    by_cases ha : a = .handle
    · subst ha
      exact (handle_step hstep hs).1.mp hfaithful
    · exact continues_of_ne ha

/-- A reply with two samples, and the live frame of a third one. -/
theorem faithful_iff_continues_three :
    let as : List Action := [.commit 2, .broadcast, .broadcast, .connect, .onopen none, .query,
      .reply, .handle, .commit 1, .broadcast, .handle]
    exec Viewer.step Viewer.init as =
        some ⟨3, 3, some ⟨true, [], none, []⟩, ⟨false, [0, 1, 2], [1, 2]⟩⟩ ∧
      ∀ pre post w, as = pre ++ post → exec Viewer.step Viewer.init pre = some w →
        w.app.Faithful := by
  intro as
  have hrun : exec Viewer.step Viewer.init as =
      some ⟨3, 3, some ⟨true, [], none, []⟩, ⟨false, [0, 1, 2], [1, 2]⟩⟩ := by rfl
  refine ⟨hrun, (faithful_iff_continues hrun).mp ?_⟩
  decide

/-- A sample whose live frame comes between the request and the reply is held twice. -/
theorem history_repeats_live : ¬ ∀ (as : List Action) (v : Viewer),
    exec Viewer.step Viewer.init as = some v → v.app.Faithful := by
  intro h
  have hrun := h [.connect, .onopen none, .commit 1, .broadcast, .query, .reply, .handle, .handle]
    ⟨1, 1, some ⟨true, [], none, []⟩, ⟨false, [0, 0], [0, 0]⟩⟩ (by rfl)
  exact absurd hrun.once (by decide)

end TelemetryTestbed.Ui

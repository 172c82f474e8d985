import Mathlib.Algebra.Order.Ring.Rat
import TelemetryTestbed.Lib.Window
import TelemetryTestbed.Ui.Page

/-!
# What the page shows

A journal has every sample the page took in and every sample it rendered since it was
last cleared. The buffer, the table and the sparklines are the ends of it, whatever the
user does and the sockets report (`Page.shows_of_run`). One socket at most is neither
closing nor closed. The buttons follow it unless the close event of an earlier socket
comes after it has opened (`Page.truthful_iff`).

The journal is bookkeeping beside the run: a list of what was taken in and one of what was
rendered, both emptied by a clear. The laws on the sockets are separate from it and look at
the connection alone, so each event is one case in each of the two step lemmas.
-/

namespace TelemetryTestbed.Ui

open TelemetryTestbed.Lib

/-! ## The journal -/

/-- What `handleHistory` takes of a reply. -/
def isTelemetry (item : Json) : Bool := hasType item "telemetry"

/-- The abstract view: all samples that were taken in, and all that were rendered, without any
bound on their number. -/
structure Journal where
  paused : Bool
  /-- The samples that were taken in. -/
  log : List Json
  /-- The samples that were rendered. -/
  shown : List Json

namespace Journal

def init : Journal := ⟨false, [], []⟩

def telemetry (j : Journal) (s : Json) : Journal :=
  if j.paused then j else { j with log := j.log ++ [s], shown := j.shown ++ [s] }

/-- A reply is taken in also in a pause, but not rendered there. -/
def history (j : Journal) (items : List Json) : Journal :=
  let log := j.log ++ items.filter isTelemetry
  { j with
    log := log
    shown := if j.paused then j.shown else j.shown ++ log.getLast?.toList }

def message (j : Journal) (data : Option Bytes) : Journal :=
  match Json.parse (data.getD []) with
  | none => j
  | some msg =>
    if hasType msg "telemetry" then j.telemetry msg
    else if hasType msg "history" then
      match property (some msg) "items" with
      | some (.arr items) => j.history items
      | _ => j
    else j

def note (j : Journal) : Page.Event → Journal
  | .clearAll => { j with log := [], shown := [] }
  | .togglePause => { j with paused := !j.paused }
  | .onmessage _ data => j.message data
  | _ => j

end Journal

/-! ## Windows -/

theorem pushCapped_eq {α : Type} (max : Nat) (arr : List α) (v : α) :
    pushCapped max arr v = (arr ++ [v]).rtake max := by
  unfold pushCapped List.rtake
  dsimp only
  split
  next => rfl
  next h => rw [Nat.sub_eq_zero_of_le (Nat.not_lt.mp h), List.drop_zero]

theorem pushCapped_rtake {α : Type} (max : Nat) (l : List α) (v : α) :
    pushCapped max (l.rtake max) v = (l ++ [v]).rtake max := by
  rw [pushCapped_eq, rtake_rtake_append]

/-- A message has one type. -/
theorem hasType_ne {v : Json} {a b : String} (h : hasType v a = true) (hab : ascii a ≠ ascii b) :
    hasType v b = false := by
  unfold hasType at h ⊢
  cases hp : property (some v) "type" with
  | none => exact rfl
  | some t =>
    rw [hp] at h
    cases t with
    | str s =>
      have hs : s = ascii a := of_decide_eq_true h
      exact decide_eq_false fun hb => hab (hs.symm.trans hb)
    | _ => rfl

namespace Page

variable {ν : Type} {N : Numbers ν} {p p' : Page ν} {j : Journal}

/-- The sparklines of what was rendered. -/
def sparksOf (N : Numbers ν) (shown : List Json) : Sparks ν where
  accelMag := (shown.map (accMag N)).rtake maxSpark
  gyroMag := (shown.map (gyrMag N)).rtake maxSpark
  tiltX := (shown.map (tx N)).rtake maxSpark
  m1Rpm := (shown.map (motorRpm N "motor1")).rtake maxSpark
  m2Rpm := (shown.map (motorRpm N "motor2")).rtake maxSpark

/-- The page shows the journal: the buffer and the table are its newest samples, and the fields
and sparklines what was rendered last. -/
structure Shows (N : Numbers ν) (p : Page ν) (j : Journal) : Prop where
  paused : p.paused = j.paused
  samples : p.samples = j.log.rtake 500
  tbody : p.tbody = j.log.rtake tableRows
  latest : p.latest = j.shown.getLast?
  sparks : p.sparks = sparksOf N j.shown

/-- The page shows the journal except for its table, which is not rendered yet. -/
structure Fills (N : Numbers ν) (p : Page ν) (j : Journal) : Prop where
  paused : p.paused = j.paused
  samples : p.samples = j.log.rtake 500
  latest : p.latest = j.shown.getLast?
  sparks : p.sparks = sparksOf N j.shown

theorem Fills.renderTable (h : p.Fills N j) : p.renderTable.Shows N j where
  paused := h.paused
  samples := h.samples
  tbody := by
    show p.samples.rtake tableRows = _
    rw [h.samples, rtake_rtake (by decide)]
  latest := h.latest
  sparks := h.sparks

theorem renderLatest_sparks {shown : List Json} (h : p.sparks = sparksOf N shown) (s : Json) :
    (p.renderLatest N s).sparks = sparksOf N (shown ++ [s]) := by
  show Sparks.mk _ _ _ _ _ = _
  rw [h]
  simp only [sparksOf, pushCapped_rtake, List.map_append, List.map_cons, List.map_nil]

theorem Shows.handleTelemetry (h : p.Shows N j) (s : Json) :
    (p.handleTelemetry N s).Shows N (j.telemetry s) := by
  unfold Page.handleTelemetry Journal.telemetry
  rw [h.paused]
  split
  next => exact h
  next =>
    have hsamples : (p.pushSample s).samples = (j.log ++ [s]).rtake 500 := by
      show pushCapped 500 p.samples s = _
      rw [h.samples, pushCapped_rtake]
    apply Fills.renderTable
    exact {
      paused := h.paused
      samples := hsamples
      latest := List.getLast?_concat.symm
      sparks := renderLatest_sparks h.sparks s }

/-- The samples of a reply, one after the other. -/
theorem foldl_pushSample (items : List Json) {p : Page ν} {log : List Json}
    (h : p.samples = log.rtake 500) :
    items.foldl (fun p item => if hasType item "telemetry" then p.pushSample item else p) p =
      { p with samples := (log ++ items.filter isTelemetry).rtake 500 } := by
  induction items generalizing p log with
  | nil => rw [List.filter_nil, List.append_nil, ← h]; rfl
  | cons item items ih =>
    rw [List.foldl_cons]
    split
    next hitem =>
      have hkept : isTelemetry item = true := hitem
      have hpush : (p.pushSample item).samples = (log ++ [item]).rtake 500 := by
        show pushCapped 500 p.samples item = _
        rw [h, pushCapped_rtake]
      rw [ih hpush, List.filter_cons_of_pos hkept, List.append_assoc, List.singleton_append]
      rfl
    next hitem =>
      have hleft : ¬ isTelemetry item = true := hitem
      rw [ih h, List.filter_cons_of_neg hleft]

theorem Shows.handleHistory (h : p.Shows N j) {msg : Json} {items : List Json}
    (hitems : property (some msg) "items" = some (.arr items)) :
    (p.handleHistory N msg).Shows N (j.history items) := by
  have hlast : ∀ log : List Json, (log.rtake 500).getLast? = log.getLast? :=
    getLast?_rtake (by decide)
  unfold Page.handleHistory Journal.history
  rw [hitems]
  dsimp only
  rw [foldl_pushSample items h.samples]
  generalize j.log ++ items.filter isTelemetry = log
  generalize hq : ({ p with samples := log.rtake 500 } : Page ν) = q
  have hpaused : q.paused = j.paused := by rw [← hq, ← h.paused]
  have hsamples : q.samples = log.rtake 500 := by rw [← hq]
  have hlatest : q.latest = j.shown.getLast? := by rw [← hq, ← h.latest]
  have hsparks : q.sparks = sparksOf N j.shown := by rw [← hq, ← h.sparks]
  rw [hsamples, hlast, hpaused]
  apply Fills.renderTable
  cases hlog : log.getLast? with
  | none =>
    have hshown : (if j.paused then j.shown else j.shown ++ (none : Option Json).toList) =
        j.shown := by
      split
      · rfl
      · exact List.append_nil _
    rw [hshown]
    exact ⟨hpaused, hsamples, hlatest, hsparks⟩
  | some s =>
    dsimp only
    split
    next => exact ⟨hpaused, hsamples, hlatest, hsparks⟩
    next =>
      exact {
        paused := hpaused
        samples := hsamples
        latest := List.getLast?_concat.symm
        sparks := renderLatest_sparks hsparks s }

theorem Shows.onmessage (h : p.Shows N j) (data : Option Bytes) :
    (p.onmessage N data).Shows N (j.message data) := by
  unfold Page.onmessage Journal.message
  cases hparse : Json.parse (data.getD []) with
  | none => exact h
  | some msg =>
    dsimp only
    split
    next hstatus =>
      have htelemetry := hasType_ne (b := "telemetry") hstatus (by decide)
      have hhistory := hasType_ne (b := "history") hstatus (by decide)
      rw [htelemetry, hhistory]
      split
      · split
        · exact ⟨h.paused, h.samples, h.tbody, h.latest, h.sparks⟩
        · exact h
      · exact h
    next =>
      split
      next => exact h.handleTelemetry msg
      next =>
        split
        next =>
          split
          next items hitems => exact h.handleHistory hitems
          next hitems =>
            unfold Page.handleHistory
            split
            next items hitems' => exact (hitems items hitems').elim
            next => exact h
        next => exact h

theorem shows_init : (init : Page ν).Shows N .init where
  paused := rfl
  samples := (List.rtake_nil _).symm
  tbody := (List.rtake_nil _).symm
  latest := rfl
  sparks := by simp only [Journal.init, sparksOf, List.map_nil, List.rtake_nil]; rfl

/-- The two pages show the same samples, whatever has become of the connection. -/
structure SameView (p p' : Page ν) : Prop where
  paused : p'.paused = p.paused
  samples : p'.samples = p.samples
  tbody : p'.tbody = p.tbody
  latest : p'.latest = p.latest
  sparks : p'.sparks = p.sparks

theorem Shows.same (h : p.Shows N j) (hsame : SameView p p') : p'.Shows N j where
  paused := hsame.paused.trans h.paused
  samples := hsame.samples.trans h.samples
  tbody := hsame.tbody.trans h.tbody
  latest := hsame.latest.trans h.latest
  sparks := hsame.sparks.trans h.sparks

theorem Shows.of_sockets (h : p.Shows N j) (sockets : List ReadyState) :
    ({ p with sockets := sockets } : Page ν).Shows N j := h.same ⟨rfl, rfl, rfl, rfl, rfl⟩

theorem sameView_disconnect (p : Page ν) : SameView p p.disconnect := by
  unfold Page.disconnect
  split <;> exact ⟨rfl, rfl, rfl, rfl, rfl⟩

theorem sameView_connect (p : Page ν) (constructed : Bool) :
    SameView p (p.connect constructed) := by
  obtain ⟨hpaused, hsamples, htbody, hlatest, hsparks⟩ := sameView_disconnect p
  unfold Page.connect
  dsimp only
  split <;> exact ⟨hpaused, hsamples, htbody, hlatest, hsparks⟩

theorem sameView_requestHistory (p : Page ν) (value : Option ℚ) :
    SameView p (p.requestHistory value) := by
  unfold Page.requestHistory
  split
  · exact ⟨rfl, rfl, rfl, rfl, rfl⟩
  · split <;> exact ⟨rfl, rfl, rfl, rfl, rfl⟩

theorem sameView_onclose (p : Page ν) (failed : Bool) : SameView p (p.onclose failed) := by
  cases failed <;> exact ⟨rfl, rfl, rfl, rfl, rfl⟩

theorem sameView_onopen (p : Page ν) (value : Option ℚ) : SameView p (p.onopen value) := by
  obtain ⟨hpaused, hsamples, htbody, hlatest, hsparks⟩ := sameView_requestHistory
    { p with status := .connected, disabled := ⟨true, false, false, false⟩ } value
  exact ⟨hpaused, hsamples, htbody, hlatest, hsparks⟩

/-! ## The events -/

/-- What an event can do, and where it can happen. -/
inductive Moves (N : Numbers ν) (p : Page ν) : Event → Page ν → Prop
  | connect (constructed : Bool) (h : p.disabled.connect = false) :
    Moves N p (.connect constructed) (p.connect constructed)
  | disconnect : Moves N p .disconnect p.disconnect
  | requestHistory (value : Option ℚ) :
    Moves N p (.requestHistory value) (p.requestHistory value)
  | clearAll : Moves N p .clearAll p.clearAll
  | togglePause : Moves N p .togglePause p.togglePause
  | onopen {i : Nat} (value : Option ℚ) (h : p.sockets[i]? = some .connecting) :
    Moves N p (.onopen i value) ({ p with sockets := p.sockets.set i .opened }.onopen value)
  | onmessage {i : Nat} (data : Option Bytes) (h : p.sockets[i]? = some .opened) :
    Moves N p (.onmessage i data) (p.onmessage N data)
  | closing {i : Nat} (h : p.sockets[i]? = some .opened) :
    Moves N p (.closing i) { p with sockets := p.sockets.set i .closing }
  | onclose {i : Nat} {state : ReadyState} (failed : Bool) (h : p.sockets[i]? = some state) :
    Moves N p (.onclose i failed) ({ p with sockets := p.sockets.set i .closed }.onclose failed)

theorem moves_of_step {e : Event} (h : p.step N e = some p') : Moves N p e p' := by
  cases e with
  | connect constructed =>
    obtain ⟨hbutton, h⟩ := Option.ite_none_left_eq_some.mp h
    obtain rfl := Option.some.inj h
    exact .connect constructed (Bool.not_eq_true _ ▸ hbutton)
  | disconnect =>
    obtain ⟨-, h⟩ := Option.ite_none_left_eq_some.mp h
    obtain rfl := Option.some.inj h
    exact .disconnect
  | requestHistory value =>
    obtain ⟨-, h⟩ := Option.ite_none_left_eq_some.mp h
    obtain rfl := Option.some.inj h
    exact .requestHistory value
  | clearAll =>
    obtain rfl := Option.some.inj h
    exact .clearAll
  | togglePause =>
    obtain ⟨-, h⟩ := Option.ite_none_left_eq_some.mp h
    obtain rfl := Option.some.inj h
    exact .togglePause
  | onopen i value =>
    obtain ⟨hstate, h⟩ := Option.ite_none_right_eq_some.mp h
    obtain rfl := Option.some.inj h
    exact .onopen value hstate
  | onmessage i data =>
    obtain ⟨hstate, h⟩ := Option.ite_none_right_eq_some.mp h
    obtain rfl := Option.some.inj h
    exact .onmessage data hstate
  | closing i =>
    obtain ⟨hstate, h⟩ := Option.ite_none_right_eq_some.mp h
    obtain rfl := Option.some.inj h
    exact .closing hstate
  | onclose i failed =>
    rw [Page.step] at h
    split at h
    next => cases h
    next => cases h
    next hstate =>
      obtain rfl := Option.some.inj h
      exact .onclose failed hstate

theorem Shows.step {e : Event} (h : p.Shows N j) (hstep : p.step N e = some p') :
    p'.Shows N (j.note e) := by
  cases moves_of_step hstep with
  | connect constructed => exact h.same (sameView_connect p constructed)
  | disconnect => exact h.same (sameView_disconnect p)
  | requestHistory value => exact h.same (sameView_requestHistory p value)
  | clearAll =>
    exact {
      paused := h.paused
      samples := (List.rtake_nil _).symm
      tbody := (List.rtake_nil _).symm
      latest := rfl
      sparks := (shows_init (N := N)).sparks }
  | togglePause => exact ⟨congrArg not h.paused, h.samples, h.tbody, h.latest, h.sparks⟩
  | onopen value => exact (h.of_sockets _).same (sameView_onopen _ value)
  | onmessage data => exact h.onmessage data
  | closing => exact h.of_sockets _
  | onclose failed => exact (h.of_sockets _).same (sameView_onclose _ failed)

theorem Shows.run {es : List Event} (h : p.Shows N j) (hrun : exec (Page.step N) p es = some p') :
    p'.Shows N (es.foldl Journal.note j) := by
  induction es generalizing p j with
  | nil =>
    obtain rfl := Option.some.inj hrun
    exact h
  | cons e es ih =>
    obtain ⟨m, hm, hrest⟩ := exec_cons hrun
    exact ih (h.step hm) hrest

/-! ## The sockets -/

/-- Only the socket in `state.ws` can open or give messages, and it has asked for the history
when it opened. -/
structure Tidy (p : Page ν) : Prop where
  bound : ∀ i, p.ws = some i → i < p.sockets.length
  only : ∀ i state, p.sockets[i]? = some state → state = .connecting ∨ state = .opened →
    p.ws = some i
  asked : ∀ i, p.sockets[i]? = some .opened → ∃ n, (i, n) ∈ p.requests
  requests : ∀ r ∈ p.requests, 1 ≤ r.2 ∧ r.2 ≤ 5000 ∧
    ∃ state, p.sockets[r.1]? = some state ∧ state ≠ .connecting
  /-- Where the page says that it is connected, a socket is not closed yet. -/
  connected : p.status = .connected ∨ p.disabled.connect = true →
    ∃ (i : Nat) (state : ReadyState), p.sockets[i]? = some state ∧
      (state = .opened ∨ state = .closing)

theorem tidy_init : (init : Page ν).Tidy := by
  refine ⟨nofun, nofun, nofun, nofun, fun h => ?_⟩
  rcases h with h | h <;> cases h

theorem requestLast_mem (value : Option ℚ) : 1 ≤ requestLast value ∧ requestLast value ≤ 5000 :=
  ⟨le_max_left _ _, max_le (by norm_num) (min_le_left _ _)⟩

/-- The two pages have the same sockets, requests and buttons, whatever they show. -/
structure SameLink (p p' : Page ν) : Prop where
  sockets : p'.sockets = p.sockets
  ws : p'.ws = p.ws
  requests : p'.requests = p.requests
  disabled : p'.disabled = p.disabled

theorem SameLink.refl (p : Page ν) : SameLink p p := ⟨rfl, rfl, rfl, rfl⟩

theorem sameLink_handleTelemetry (p : Page ν) (msg : Json) :
    SameLink p (p.handleTelemetry N msg) ∧ (p.handleTelemetry N msg).status = p.status := by
  unfold Page.handleTelemetry
  split
  · exact ⟨.refl p, rfl⟩
  · exact ⟨⟨rfl, rfl, rfl, rfl⟩, rfl⟩

theorem sameLink_handleHistory (p : Page ν) (msg : Json) :
    SameLink p (p.handleHistory N msg) ∧ (p.handleHistory N msg).status = p.status := by
  have hpush : ∀ (items : List Json) (p : Page ν),
      SameLink p (items.foldl (fun p item =>
        if hasType item "telemetry" then p.pushSample item else p) p) ∧
      (items.foldl (fun p item =>
        if hasType item "telemetry" then p.pushSample item else p) p).status = p.status := by
    intro items
    induction items with
    | nil => exact fun p => ⟨.refl p, rfl⟩
    | cons item items ih =>
      intro p
      rw [List.foldl_cons]
      split
      next =>
        obtain ⟨⟨hsockets, hws, hrequests, hdisabled⟩, hstatus⟩ := ih (p.pushSample item)
        exact ⟨⟨hsockets, hws, hrequests, hdisabled⟩, hstatus⟩
      next => exact ih p
  unfold Page.handleHistory
  split
  next items _ =>
    obtain ⟨⟨hsockets, hws, hrequests, hdisabled⟩, hstatus⟩ := hpush items p
    dsimp only
    split
    · exact ⟨⟨hsockets, hws, hrequests, hdisabled⟩, hstatus⟩
    · split
      · exact ⟨⟨hsockets, hws, hrequests, hdisabled⟩, hstatus⟩
      · exact ⟨⟨hsockets, hws, hrequests, hdisabled⟩, hstatus⟩
  next => exact ⟨.refl p, rfl⟩

/-- A message leaves the connection as it is, and may only say that it is there. -/
theorem sameLink_onmessage (p : Page ν) (data : Option Bytes) :
    SameLink p (p.onmessage N data) ∧
      ((p.onmessage N data).status = p.status ∨ (p.onmessage N data).status = .connected) := by
  have hsame : SameLink p p ∧ (p.status = p.status ∨ p.status = .connected) :=
    ⟨.refl p, Or.inl rfl⟩
  unfold Page.onmessage
  split
  next => exact hsame
  next msg _ =>
    split
    · split
      · split
        · exact ⟨⟨rfl, rfl, rfl, rfl⟩, Or.inr rfl⟩
        · exact hsame
      · exact hsame
    · split
      · exact ⟨(sameLink_handleTelemetry p msg).1, Or.inl (sameLink_handleTelemetry p msg).2⟩
      · split
        · exact ⟨(sameLink_handleHistory p msg).1, Or.inl (sameLink_handleHistory p msg).2⟩
        · exact hsame

/-- Setting one socket. -/
theorem getElem?_set_cases {sockets : List ReadyState} {i k : Nat} {state state' : ReadyState}
    (h : (sockets.set i state)[k]? = some state') :
    k = i ∧ state' = state ∨ k ≠ i ∧ sockets[k]? = some state' := by
  rw [List.getElem?_set] at h
  split at h
  next hk =>
    split at h
    · exact Or.inl ⟨hk.symm, (Option.some.inj h).symm⟩
    · cases h
  next hk => exact Or.inr ⟨fun e => hk e.symm, h⟩

theorem getElem?_modify_cases {sockets : List ReadyState} {i k : Nat} {state : ReadyState}
    {f : ReadyState → ReadyState} (h : (sockets.modify i f)[k]? = some state) :
    k = i ∧ (∃ before, sockets[k]? = some before ∧ state = f before) ∨
      k ≠ i ∧ sockets[k]? = some state := by
  rw [List.getElem?_modify] at h
  obtain ⟨before, hbefore, hstate⟩ := Option.map_eq_some_iff.mp h
  split at hstate
  next hk => exact Or.inl ⟨hk.symm, before, hbefore, hstate.symm⟩
  next hk => exact Or.inr ⟨fun e => hk e.symm, by rw [hbefore, hstate]⟩

theorem getElem?_concat_cases {sockets : List ReadyState} {k : Nat} {state state' : ReadyState}
    (h : (sockets ++ [state])[k]? = some state') :
    sockets[k]? = some state' ∨ k = sockets.length ∧ state' = state := by
  rw [List.getElem?_append] at h
  split at h
  next => exact Or.inl h
  next hk =>
    obtain ⟨hlt, hstate⟩ := List.getElem?_eq_some_iff.mp h
    rw [List.length_singleton] at hlt
    refine Or.inr ⟨by omega, ?_⟩
    rw [← hstate, List.getElem_singleton]

theorem Tidy.same (h : p.Tidy) (hlink : SameLink p p')
    (hstatus : p'.status = p.status ∨ p'.status = .connected ∧
      ∃ i : Nat, p.sockets[i]? = some .opened) : p'.Tidy := by
  obtain ⟨hsockets, hws, hrequests, hdisabled⟩ := hlink
  constructor
  · rw [hsockets, hws]
    exact h.bound
  · rw [hsockets, hws]
    exact h.only
  · rw [hsockets, hrequests]
    exact h.asked
  · rw [hsockets, hrequests]
    exact h.requests
  · rw [hsockets, hdisabled]
    rcases hstatus with hstatus | ⟨-, i, hi⟩
    · rw [hstatus]
      exact h.connected
    · exact fun _ => ⟨i, .opened, hi, Or.inl rfl⟩

theorem Tidy.requestHistory (h : p.Tidy) (value : Option ℚ) : (p.requestHistory value).Tidy := by
  unfold Page.requestHistory
  split
  next => exact h
  next i _ =>
    split
    next hopened =>
      refine ⟨h.bound, h.only, fun k hk => ?_, fun r hr => ?_, h.connected⟩
      · obtain ⟨n, hn⟩ := h.asked k hk
        exact ⟨n, List.mem_append_left _ hn⟩
      · rcases List.mem_append.mp hr with hr | hr
        · exact h.requests r hr
        · obtain rfl := List.mem_singleton.mp hr
          obtain ⟨hlow, hhigh⟩ := requestLast_mem value
          exact ⟨hlow, hhigh, .opened, hopened, nofun⟩
    next => exact h

/-- A socket moves on, and is not opened by that. -/
theorem Tidy.set {i : Nat} {state : ReadyState} (h : p.Tidy)
    (hstate : state = .closing ∨ state = .closed)
    (hconnected : state = .closing ∨ p.status ≠ .connected ∧ p.disabled.connect = false) :
    ({ p with sockets := p.sockets.set i state } : Page ν).Tidy := by
  have hnot : state ≠ .connecting ∧ state ≠ .opened := by
    rcases hstate with rfl | rfl <;> exact ⟨nofun, nofun⟩
  refine ⟨fun k hk => ?_, fun k s hk hs => ?_, fun k hk => ?_, fun r hr => ?_, fun hc => ?_⟩
  · rw [List.length_set]
    exact h.bound k hk
  · rcases getElem?_set_cases hk with ⟨-, rfl⟩ | ⟨-, hk⟩
    · exact (hs.elim hnot.1 hnot.2).elim
    · exact h.only k s hk hs
  · rcases getElem?_set_cases hk with ⟨-, hopened⟩ | ⟨-, hk⟩
    · exact (hnot.2 hopened.symm).elim
    · exact h.asked k hk
  · obtain ⟨hlow, hhigh, s, hs, hne⟩ := h.requests r hr
    have hlt : r.1 < p.sockets.length := (List.getElem?_eq_some_iff.mp hs).1
    by_cases hr1 : i = r.1
    · exact ⟨hlow, hhigh, state, by rw [hr1, List.getElem?_set_self hlt], hnot.1⟩
    · exact ⟨hlow, hhigh, s, by rw [List.getElem?_set_ne hr1, hs], hne⟩
  · rcases hconnected with rfl | ⟨hstatus, hbutton⟩
    · obtain ⟨k, s, hk, hs⟩ := h.connected hc
      by_cases hki : i = k
      · have hlt : k < p.sockets.length := (List.getElem?_eq_some_iff.mp hk).1
        exact ⟨k, .closing, by rw [hki, List.getElem?_set_self hlt], Or.inr rfl⟩
      · exact ⟨k, s, by rw [List.getElem?_set_ne hki, hk], hs⟩
    · rcases hc with hc | hc
      · exact (hstatus hc).elim
      · cases hbutton.symm.trans hc

theorem Tidy.disconnect (h : p.Tidy) : p.disconnect.Tidy := by
  unfold Page.disconnect
  split
  next => exact h
  next i hws =>
    let close : ReadyState → ReadyState := fun state =>
      if state = .closed then .closed else .closing
    have hclose : ∀ state, close state = .closing ∨ close state = .closed := by
      intro state
      cases state <;> decide
    have hlate : ∀ (k : Nat) (state : ReadyState), (p.sockets.modify i close)[k]? = some state →
        state ≠ .connecting ∧ state ≠ .opened := by
      intro k state hk
      rcases getElem?_modify_cases hk with ⟨-, before, -, rfl⟩ | ⟨hne, hk⟩
      · rcases hclose before with hb | hb <;> rw [hb] <;> exact ⟨nofun, nofun⟩
      · have hother : p.ws ≠ some k := fun hk => hne (Option.some.inj (hk.symm.trans hws))
        exact ⟨fun hs => hother (h.only k state hk (Or.inl hs)),
          fun hs => hother (h.only k state hk (Or.inr hs))⟩
    have hstate : ∀ k, k < p.sockets.length →
        ∃ state, (p.sockets.modify i close)[k]? = some state := by
      intro k hk
      exact ⟨_, List.getElem?_eq_getElem (by rwa [List.length_modify])⟩
    refine ⟨nofun, fun k s hk hs => ?_, fun k hk => ?_, fun r hr => ?_, fun hc => ?_⟩
    · exact (hs.elim (hlate k s hk).1 (hlate k s hk).2).elim
    · exact ((hlate k _ hk).2 rfl).elim
    · obtain ⟨hlow, hhigh, s, hs, -⟩ := h.requests r hr
      obtain ⟨s', hs'⟩ := hstate r.1 (List.getElem?_eq_some_iff.mp hs).1
      exact ⟨hlow, hhigh, s', hs', (hlate r.1 s' hs').1⟩
    · obtain ⟨k, s, hk, hs⟩ := h.connected hc
      by_cases hki : i = k
      · refine ⟨k, .closing, ?_, Or.inr rfl⟩
        rcases hs with rfl | rfl <;> simp [hki, hk]
      · exact ⟨k, s, by simp [hki, hk], hs⟩

theorem disconnect_ws (p : Page ν) : p.disconnect.ws = none := by
  unfold Page.disconnect
  split
  next h => exact h
  next => rfl

theorem disconnect_disabled (p : Page ν) : p.disconnect.disabled = p.disabled := by
  unfold Page.disconnect
  split <;> rfl

theorem Tidy.connect (h : p.Tidy) (hbutton : p.disabled.connect = false) (constructed : Bool) :
    (p.connect constructed).Tidy := by
  obtain ⟨hbound, honly, hasked, hrequests, -⟩ := h.disconnect
  have hws := disconnect_ws p
  have hoff : p.disconnect.disabled.connect = false := by rw [disconnect_disabled, hbutton]
  unfold Page.connect
  dsimp only
  split
  next =>
    refine ⟨fun k hk => ?_, fun k s hk hs => ?_, fun k hk => ?_, fun r hr => ?_, fun hc => ?_⟩
    · obtain rfl := Option.some.inj hk
      rw [List.length_append]
      exact Nat.lt_succ_self _
    · rcases getElem?_concat_cases hk with hk | ⟨rfl, -⟩
      · cases hws.symm.trans (honly k s hk hs)
      · rfl
    · rcases getElem?_concat_cases hk with hk | ⟨-, hk⟩
      · exact hasked k hk
      · cases hk
    · obtain ⟨hlow, hhigh, s, hs, hne⟩ := hrequests r hr
      have hlt : r.1 < p.disconnect.sockets.length := (List.getElem?_eq_some_iff.mp hs).1
      exact ⟨hlow, hhigh, s, by rw [List.getElem?_append_left hlt, hs], hne⟩
    · rcases hc with hc | hc
      · cases hc
      · cases hoff.symm.trans hc
  next =>
    refine ⟨hbound, honly, hasked, hrequests, fun hc => ?_⟩
    rcases hc with hc | hc
    · cases hc
    · cases hoff.symm.trans hc

theorem onopen_eq {i : Nat} (hws : p.ws = some i) (hlt : i < p.sockets.length)
    (value : Option ℚ) :
    ({ p with sockets := p.sockets.set i .opened }.onopen value : Page ν) =
      { p with
        sockets := p.sockets.set i .opened
        status := .connected
        disabled := ⟨true, false, false, false⟩
        requests := p.requests ++ [(i, requestLast value)] } := by
  unfold Page.onopen Page.requestHistory
  dsimp only
  rw [hws]
  exact if_pos (List.getElem?_set_self hlt)

/-- The socket that opens is the one in `state.ws`. -/
theorem Tidy.onopen {i : Nat} (h : p.Tidy) (hstate : p.sockets[i]? = some .connecting)
    (value : Option ℚ) :
    ({ p with sockets := p.sockets.set i .opened }.onopen value : Page ν).Tidy := by
  have hws : p.ws = some i := h.only i _ hstate (Or.inl rfl)
  have hlt : i < p.sockets.length := (List.getElem?_eq_some_iff.mp hstate).1
  have hopened : (p.sockets.set i .opened)[i]? = some .opened := List.getElem?_set_self hlt
  obtain ⟨hlow, hhigh⟩ := requestLast_mem value
  rw [onopen_eq hws hlt]
  refine ⟨fun k hk => ?_, fun k s hk hs => ?_, fun k hk => ?_, fun r hr => ?_, fun _ => ?_⟩
  · rw [List.length_set]
    exact h.bound k hk
  · rcases getElem?_set_cases hk with ⟨rfl, -⟩ | ⟨-, hk⟩
    · exact hws
    · exact h.only k s hk hs
  · rcases getElem?_set_cases hk with ⟨rfl, -⟩ | ⟨-, hk⟩
    · exact ⟨_, List.mem_append_right _ (List.mem_singleton_self _)⟩
    · obtain ⟨n, hn⟩ := h.asked k hk
      exact ⟨n, List.mem_append_left _ hn⟩
  · rcases List.mem_append.mp hr with hr | hr
    · obtain ⟨hlow, hhigh, s, hs, hne⟩ := h.requests r hr
      by_cases hri : i = r.1
      · exact ⟨hlow, hhigh, .opened, hri ▸ hopened, nofun⟩
      · exact ⟨hlow, hhigh, s, by rw [List.getElem?_set_ne hri, hs], hne⟩
    · obtain rfl := List.mem_singleton.mp hr
      exact ⟨hlow, hhigh, .opened, hopened, nofun⟩
  · exact ⟨i, .opened, hopened, Or.inl rfl⟩

theorem onclose_eq (p : Page ν) (failed : Bool) :
    p.onclose failed =
      { p with status := .disconnected, disabled := ⟨false, true, true, true⟩ } := by
  cases failed <;> rfl

theorem Tidy.onclose (h : p.Tidy) (i : Nat) (failed : Bool) :
    ({ p with sockets := p.sockets.set i .closed }.onclose failed : Page ν).Tidy := by
  have hoff : ({ p with
      status := .disconnected, disabled := ⟨false, true, true, true⟩ } : Page ν).Tidy := by
    refine ⟨h.bound, h.only, h.asked, h.requests, fun hc => ?_⟩
    rcases hc with hc | hc <;> cases hc
  rw [onclose_eq]
  exact hoff.set (Or.inr rfl) (Or.inr ⟨nofun, rfl⟩)

theorem Tidy.next {e : Event} (h : p.Tidy) (hstep : p.step N e = some p') : p'.Tidy := by
  cases moves_of_step hstep with
  | connect constructed hbutton => exact h.connect hbutton constructed
  | disconnect => exact h.disconnect
  | requestHistory value => exact h.requestHistory value
  | clearAll => exact h.same ⟨rfl, rfl, rfl, rfl⟩ (Or.inl rfl)
  | togglePause => exact h.same ⟨rfl, rfl, rfl, rfl⟩ (Or.inl rfl)
  | onopen value hstate => exact h.onopen hstate value
  | @onmessage i data hstate =>
    obtain ⟨hlink, hstatus⟩ := sameLink_onmessage (N := N) p data
    exact h.same hlink (hstatus.imp_right fun hs => ⟨hs, i, hstate⟩)
  | closing => exact h.set (Or.inl rfl) (Or.inl rfl)
  | onclose failed => exact h.onclose _ failed

/-- **The page shows the ends of its journal.** In every run of clicks and socket events, with
any messages, the state is what the journal of the run says: the buffer, the table and the
sparklines are the last 500, 40 and 240 of what was taken in or rendered since the last clear,
and the latest sample is the last one rendered. And the connection is tidy: the socket in
`state.ws` is the only one that can be connecting or open, each that has opened was asked for
its history, every request asks for 1 to 5000 rows, and where the page says that it is connected
a socket is not closed yet. The numbers of JavaScript are a parameter with total conversions. -/
theorem shows_of_run {es : List Event} (h : exec (Page.step N) init es = some p) :
    p.Shows N (es.foldl Journal.note .init) ∧ p.Tidy :=
  ⟨shows_init.run h, exec_preserves (fun _ _ _ hs hstep => hs.next hstep) tidy_init h⟩

/-- A live sample, and a reply in a pause with one more sample and something else. -/
theorem shows_of_run_pause :
    let N : Numbers Nat := ⟨fun _ => 0, fun _ => true, 0, fun x y z => x + y + z⟩
    let live : Json := .obj [(ascii "type", .str (ascii "telemetry")), (ascii "seq", .num 1 0)]
    let old : Json := .obj [(ascii "type", .str (ascii "telemetry")), (ascii "seq", .num 0 0)]
    let es : List Event := [.connect true, .onopen 0 none,
      .onmessage 0 (some (ascii "\x7b\"type\":\"telemetry\",\"seq\":1\x7d")), .togglePause,
      .onmessage 0 (some (ascii "\x7b\"type\":\"history\",\"items\":[" ++
        ascii "\x7b\"type\":\"telemetry\",\"seq\":0\x7d,null]\x7d")),
      .disconnect, .onclose 0 false]
    ∃ p, exec (Page.step N) init es = some p ∧ p.Shows N ⟨true, [live, old], [live]⟩ ∧ p.Tidy := by
  intro N live old es
  have hjournal : es.foldl Journal.note .init = ⟨true, [live, old], [live]⟩ := rfl
  obtain ⟨p, hp⟩ : ∃ p, exec (Page.step N) init es = some p := ⟨_, rfl⟩
  rw [← hjournal]
  exact ⟨p, hp, shows_of_run hp⟩

/-! ## The buttons -/

/-- Where the socket is open, the page says so, and lets the user close it. -/
def Truthful (p : Page ν) : Prop :=
  ∀ i, p.ws = some i → p.sockets[i]? = some .opened →
    p.status = .connected ∧ p.disabled = ⟨true, false, false, false⟩

/-- No socket reports its end while another one is open. -/
def InTime (p : Page ν) : Event → Prop
  | .onclose i _ => ∀ k, p.ws = some k → p.sockets[k]? = some .opened → i = k
  | _ => True

theorem Truthful.same (h : p.Truthful) (hsockets : p'.sockets = p.sockets) (hws : p'.ws = p.ws)
    (hdisabled : p'.disabled = p.disabled)
    (hstatus : p'.status = p.status ∨ p'.status = .connected) : p'.Truthful := by
  intro i hi hopened
  rw [hws] at hi
  rw [hsockets] at hopened
  obtain ⟨hconnected, hbuttons⟩ := h i hi hopened
  exact ⟨hstatus.elim (fun hs => hs.trans hconnected) id, hdisabled.trans hbuttons⟩

theorem truthful_connect (p : Page ν) (constructed : Bool) :
    (p.connect constructed).Truthful := by
  unfold Page.connect
  dsimp only
  split
  next =>
    intro i hi hopened
    obtain rfl := Option.some.inj hi
    cases List.getElem?_concat_length.symm.trans hopened
  next =>
    intro i hi
    cases (disconnect_ws p).symm.trans hi

theorem Truthful.requestHistory (h : p.Truthful) (value : Option ℚ) :
    (p.requestHistory value).Truthful := by
  unfold Page.requestHistory
  split
  · exact h
  · split
    · exact h.same rfl rfl rfl (Or.inl rfl)
    · exact h

theorem Truthful.next {e : Event} (h : p.Truthful) (htidy : p.Tidy) (hguard : p.InTime e)
    (hstep : p.step N e = some p') : p'.Truthful := by
  cases moves_of_step hstep with
  | connect constructed => exact truthful_connect p constructed
  | disconnect =>
    intro i hi
    cases (disconnect_ws p).symm.trans hi
  | requestHistory value => exact h.requestHistory value
  | clearAll => exact h.same rfl rfl rfl (Or.inl rfl)
  | togglePause => exact h.same rfl rfl rfl (Or.inl rfl)
  | @onopen i value hstate =>
    rw [onopen_eq (htidy.only i _ hstate (Or.inl rfl)) (List.getElem?_eq_some_iff.mp hstate).1]
    exact fun k _ _ => ⟨rfl, rfl⟩
  | onmessage data =>
    obtain ⟨hlink, hstatus⟩ := sameLink_onmessage (N := N) p data
    exact h.same hlink.sockets hlink.ws hlink.disabled hstatus
  | closing hstate =>
    intro k hk hopened
    rcases getElem?_set_cases hopened with ⟨-, hs⟩ | ⟨-, hopened⟩
    · cases hs
    · exact h k hk hopened
  | onclose failed hstate =>
    rw [onclose_eq]
    intro k hk hopened
    rcases getElem?_set_cases hopened with ⟨-, hs⟩ | ⟨hne, hopened⟩
    · cases hs
    · exact (hne (hguard k hk hopened).symm).elim

/-- The close event of another socket hides the one that is open. -/
theorem InTime.of_truthful {e : Event} (hstep : p.step N e = some p') (h : p'.Truthful) :
    p.InTime e := by
  cases moves_of_step hstep with
  | @onclose i _ failed hstate =>
    rw [onclose_eq] at h
    intro k hk hopened
    by_contra hne
    cases (h k hk ((List.getElem?_set_ne hne).trans hopened)).1
  | _ => exact True.intro

/-- **When the page tells the truth about its socket.** In every state of a run, where the
socket is open the page says `connected` and offers the buttons of an open connection, exactly
if no socket reports its end while another one is open. The handler of a close event does not
look at which socket it is for. -/
theorem truthful_iff {es : List Event} (h : exec (Page.step N) init es = some p) :
    Guarded (Page.step N) InTime init es ↔
      ∀ pre post m, es = pre ++ post → exec (Page.step N) init pre = some m → m.Truthful := by
  have hscope : Guarded (Page.step N) (fun _ _ => True) init es :=
    Guarded.of_forall (fun _ _ => True.intro) _ _
  refine guarded_iff_forall_reached (I := fun p => p.Tidy ∧ p.Truthful) (P := Truthful)
    (fun _ hs => hs.2) ?_ ?_ ⟨tidy_init, nofun⟩ hscope h
  · intro s e s' hs _ hguard hstep
    exact ⟨hs.1.next hstep, hs.2.next hs.1 hguard hstep⟩
  · intro s e s' _ _ hstep htruthful
    exact .of_truthful hstep htruthful

/-- The user connects twice, and the first socket ends behind the opening of the second. -/
theorem late_close_hides_socket :
    let N : Numbers Nat := ⟨fun _ => 0, fun _ => true, 0, fun x y z => x + y + z⟩
    let es : List Event := [.connect true, .connect true, .onopen 1 none, .onclose 0 true]
    ¬ ∀ pre post m, es = pre ++ post → exec (Page.step N) init pre = some m → m.Truthful := by
  intro N es hall
  have hrun : exec (Page.step N) init es = some _ := rfl
  obtain ⟨-, h⟩ := (truthful_iff hrun).mpr hall
  obtain ⟨-, h⟩ := h _ rfl
  obtain ⟨-, h⟩ := h _ rfl
  obtain ⟨hlate, -⟩ := h _ rfl
  cases hlate 1 rfl rfl

end Page

end TelemetryTestbed.Ui

import Mathlib.Algebra.Order.Ring.Nat
import TelemetryTestbed.Sim.Robot

/-!
# The simulator comes to an end in order

In every interleaving, a thread has its block of arguments and its client from its own
start to its own end, and the cache and the library outlast all threads, since `main`
joins every thread it started. What is held in a state is a function of the state
(`Robot.Holds`), every step pays for the next one, and when `main` returns nothing is
held. `main` is never stuck, and behind a signal it returns.

Three invariants do the work: the order in which `main` starts and joins the threads, what
each party holds at its place, and that the sum of the ranks of all parties falls with every
step once `running` is cleared. Freedom from being stuck is by cases on the place of `main`:
it can take a step, or the thread it waits for can.
-/

namespace TelemetryTestbed.Sim

open TelemetryTestbed.Lib TelemetryTestbed.Mqtt

/-! ## What is held -/

/-- The threads that are started and not joined. -/
def MainPc.Unjoined (w : Worker) : MainPc → Prop
  | .start started _ => w ∈ started
  | .join rest _ => w ∈ rest
  | _ => False

/-- `main` is between `mosquitto_lib_init` and its return. -/
def MainPc.Inside : MainPc → Prop
  | .init | .returned _ => False
  | _ => True

/-- The thread has its block. -/
def WorkerPc.HasArgs : WorkerPc → Prop
  | .absent | .finished => False
  | _ => True

/-- The thread has its client. -/
def WorkerPc.Connected : WorkerPc → Prop
  | .head | .body _ | .leaving => True
  | _ => False

namespace Robot

variable {s s' : Robot} {w : Worker} {a : RobotAction}

def Holds (s : Robot) : SimResource → Prop
  | .library | .cache => s.main.Inside
  | .args w => (s.pc w).HasArgs
  | .thread w => s.main.Unjoined w
  | .mosq w | .loop w => (s.pc w).Connected
  | .buf => False

/-- `main` and the threads agree on which threads there are. -/
structure Sane (s : Robot) : Prop where
  unjoined : ∀ w, s.main.Unjoined w → s.pc w ≠ .absent
  idle : ∀ w, ¬ s.main.Unjoined w → s.pc w = .absent ∨ s.pc w = .finished
  init : s.main = .init → ∀ w, s.pc w = .absent
  start : ∀ started next, s.main = .start started next →
    started ++ next = workers ∧ ∀ w ∈ next, s.pc w = .absent
  join : ∀ rest rc, s.main = .join rest rc → rest.Nodup

theorem Sane.unjoined_of_args (h : s.Sane) (hw : (s.pc w).HasArgs) : s.main.Unjoined w := by
  by_contra hnot
  rcases h.idle w hnot with hpc | hpc <;> rw [hpc] at hw <;> exact hw

theorem Connected.hasArgs {pc : WorkerPc} (h : pc.Connected) : pc.HasArgs := by
  cases pc <;> first | exact h | exact True.intro

theorem Unjoined.inside {m : MainPc} (h : m.Unjoined w) : m.Inside := by
  cases m <;> first | exact h | exact True.intro

theorem nodup_workers : workers.Nodup := by decide

/-- The transition pays, and keeps `main` and the threads in agreement. -/
structure Fine (s s' : Robot) : Prop where
  sane : s'.Sane
  pays : ∃ es, s'.trace = s.trace ++ es ∧ Pays SimResource.uses s.Holds es s'.Holds

/-! ## The threads -/

/-- A thread that has its block goes on, and has it still or has finished. -/
theorem Sane.update (h : s.Sane) (hw : (s.pc w).HasArgs) (pc : WorkerPc)
    (hpc : pc ≠ .absent) (es : SimEvents) :
    ({ s with pc := Function.update s.pc w pc, trace := s.trace ++ es } : Robot).Sane := by
  have hun := h.unjoined_of_args hw
  have hother : ∀ {v : Worker}, v ≠ w → Function.update s.pc w pc v = s.pc v :=
    fun hv => Function.update_of_ne hv pc s.pc
  refine ⟨fun v hv => ?_, fun v hv => ?_, fun hm => ?_, fun started next hm => ?_, h.join⟩
  · by_cases hvw : v = w
    · subst hvw
      simpa using hpc
    · simpa [hother hvw] using h.unjoined v hv
  · have hvw : v ≠ w := fun e => hv (e ▸ hun)
    simpa [hother hvw] using h.idle v hv
  · exact absurd (h.init hm w) (h.unjoined w hun)
  · obtain ⟨hworkers, hnext⟩ := h.start started next hm
    refine ⟨hworkers, fun v hv => ?_⟩
    have hvw : v ≠ w := by
      rintro rfl
      exact absurd (hnext v hv) (h.unjoined v hun)
    simpa [hother hvw] using hnext v hv

/-- What is held behind a change of one thread. -/
theorem holds_update {pc : WorkerPc} {t : SimEvents} (x : SimResource) :
    ({ s with pc := Function.update s.pc w pc, trace := t } : Robot).Holds x ↔
      (x = .args w ∧ pc.HasArgs ∨ (x = .mosq w ∨ x = .loop w) ∧ pc.Connected) ∨
        (x ≠ .args w ∧ x ≠ .mosq w ∧ x ≠ .loop w) ∧ s.Holds x := by
  cases x with
  | args v | mosq v | loop v =>
    by_cases hv : v = w
    · subst hv
      simp [Holds]
    · simp [Holds, hv]
  | library | cache | buf => simp [Holds]
  | thread v => simp [Holds]

/-- A thread that finishes has nothing left. -/
theorem holds_finished {t : SimEvents} (x : SimResource) :
    ({ s with pc := Function.update s.pc w .finished, trace := t } : Robot).Holds x ↔
      x ≠ .args w ∧ x ≠ .mosq w ∧ x ≠ .loop w ∧ s.Holds x := by
  rw [holds_update]
  simp [WorkerPc.HasArgs, WorkerPc.Connected, and_assoc]

theorem holds_connected {pc : WorkerPc} (hpc : pc.Connected) (hw : (s.pc w).HasArgs)
    {t : SimEvents} (x : SimResource) :
    ({ s with pc := Function.update s.pc w pc, trace := t } : Robot).Holds x ↔
      x = .loop w ∨ x = .mosq w ∨ s.Holds x := by
  have hargs : x = .args w → s.Holds x := by
    rintro rfl
    exact hw
  have hhas := Connected.hasArgs hpc
  rw [holds_update]
  by_cases hx : x = .args w ∨ x = .mosq w ∨ x = .loop w
  · tauto
  · tauto

theorem args_unused (w : Worker) (u : SimResource) : .args w ∉ u.uses := by
  cases u <;> simp [SimResource.uses]

theorem loop_unused (w : Worker) (u : SimResource) : .loop w ∉ u.uses := by
  cases u <;> simp [SimResource.uses]

theorem buf_unused (u : SimResource) : .buf ∉ u.uses := by
  cases u <;> simp [SimResource.uses]

/-- Only the network thread stands on the client. -/
theorem mosq_unused {u : SimResource} (h : u ≠ .loop w) : .mosq w ∉ u.uses := by
  cases u with
  | loop v =>
    intro hmem
    obtain rfl : w = v := SimResource.mosq.inj (List.mem_singleton.mp hmem)
    exact h rfl
  | _ => simp [SimResource.uses]

/-- `mqtt_client_connect`, and `free(a)` where it fails. -/
theorem Sane.connect (h : s.Sane) {a : ConnectAnswers}
    (hstep : s.step (.connect w a) = some s') : Fine s s' := by
  rw [step] at hstep
  split at hstep
  next hpc =>
    have hargs : s.Holds (.args w) := by
      show (s.pc w).HasArgs
      rw [hpc]
      exact True.intro
    have hmosq : ¬ s.Holds (.mosq w) := by
      show ¬ (s.pc w).Connected
      rw [hpc]
      exact id
    have hloop : ¬ s.Holds (.loop w) := hmosq
    have hun := h.unjoined_of_args hargs
    have huses : ∀ u ∈ SimResource.uses (.mosq w), s.Holds u := by
      simp only [SimResource.uses, List.forall_mem_cons]
      exact ⟨Unjoined.inside hun, hun, nofun⟩
    have hfailed : ∀ es, Pays SimResource.uses s.Holds es s.Holds →
        Fine s { s with
          pc := Function.update s.pc w .finished
          trace := s.trace ++ (es ++ [.release (.args w)]) } := by
      intro es hes
      refine ⟨h.update hargs .finished nofun _, _, rfl, hes.append ?_⟩
      refine .release hargs (fun u _ => args_unused w u) (fun _ => Iff.rfl) (.nil fun x => ?_)
      have hx : s.Holds x → x ≠ .mosq w ∧ x ≠ .loop w :=
        fun hx => ⟨fun e => hmosq (e ▸ hx), fun e => hloop (e ▸ hx)⟩
      rw [holds_finished]
      tauto
    obtain ⟨new, connect, loopStart⟩ := a
    cases new with
    | false =>
      obtain rfl := Option.some.inj hstep
      exact hfailed [] (.nil fun _ => Iff.rfl)
    | true =>
      have hrelease : ∀ x, s.Holds x ↔ x ≠ .mosq w ∧ (x = .mosq w ∨ s.Holds x) := by
        intro x
        have hx : s.Holds x → x ≠ .mosq w := fun hx e => hmosq (e ▸ hx)
        tauto
      have hunused : ∀ u, u = .mosq w ∨ s.Holds u → .mosq w ∉ u.uses := by
        intro u hu
        refine mosq_unused fun e => ?_
        subst e
        exact hloop (hu.resolve_left nofun)
      cases connect with
      | false =>
        obtain rfl := Option.some.inj hstep
        exact hfailed [.acquire (.mosq w), .release (.mosq w)]
          (.acquire hmosq huses (fun _ => Iff.rfl)
            (.release (Or.inl rfl) hunused (fun _ => Iff.rfl) (.nil hrelease)))
      | true =>
        cases loopStart with
        | false =>
          obtain rfl := Option.some.inj hstep
          exact hfailed [.acquire (.mosq w), .touch (.mosq w), .release (.mosq w)]
            (.acquire hmosq huses (fun _ => Iff.rfl)
              (.touch (Or.inl rfl)
                (.release (Or.inl rfl) hunused (fun _ => Iff.rfl) (.nil hrelease))))
        | true =>
          obtain rfl := Option.some.inj hstep
          refine ⟨h.update hargs .head nofun _, _, rfl, ?_⟩
          refine .acquire hmosq huses (fun _ => Iff.rfl) (.acquire (fun hx => ?_) ?_
            (fun _ => Iff.rfl) (.nil fun x => ?_))
          · exact hloop (hx.resolve_left nofun)
          · simp [SimResource.uses]
          · have hhead : WorkerPc.head.Connected := True.intro
            exact holds_connected hhead hargs x
  next => cases hstep

/-- A thread with its client keeps it. -/
theorem Sane.goOn (h : s.Sane) (hw : (s.pc w).Connected) {pc : WorkerPc} (hpc : pc.Connected)
    {es : SimEvents} (hes : Pays SimResource.uses s.Holds es s.Holds) :
    Fine s { s with pc := Function.update s.pc w pc, trace := s.trace ++ es } := by
  have hargs := Connected.hasArgs hw
  have hpc' : pc ≠ .absent := by
    rintro rfl
    exact hpc
  refine ⟨h.update hargs pc hpc' es, es, rfl, hes.congr fun x => ?_⟩
  have hx : x = .loop w ∨ x = .mosq w → s.Holds x := by
    rintro (rfl | rfl) <;> exact hw
  rw [holds_connected hpc hargs]
  tauto

theorem Sane.head (h : s.Sane) (hstep : s.step (.head w) = some s') : Fine s s' := by
  rw [step] at hstep
  split at hstep
  next hpc =>
    obtain rfl := Option.some.inj hstep
    have hw : (s.pc w).Connected := by
      rw [hpc]
      exact True.intro
    refine h.goOn hw ?_ (.touch (Connected.hasArgs hw) (.nil fun _ => Iff.rfl))
    split <;> exact True.intro
  next => cases hstep

theorem pays_op (h : s.Sane) (hw : (s.pc w).Connected) (o : Op) (allocated : Bool) :
    Pays SimResource.uses s.Holds (o.events w allocated) s.Holds := by
  have hmain : s.main.Inside := Unjoined.inside (h.unjoined_of_args (Connected.hasArgs hw))
  cases o with
  | cache => exact .touch hmain (.nil fun _ => Iff.rfl)
  | publish => exact .touch hw (.nil fun _ => Iff.rfl)
  | pack =>
    cases allocated with
    | false => exact .nil fun _ => Iff.rfl
    | true =>
      refine .acquire id nofun (fun _ => Iff.rfl) (.touch (Or.inr hw)
        (.release (Or.inl rfl) (fun u _ => buf_unused u) (fun _ => Iff.rfl) (.nil fun x => ?_)))
      have hx : s.Holds x → x ≠ .buf := by
        rintro hx rfl
        exact hx
      tauto

theorem Sane.op (h : s.Sane) {allocated : Bool} (hstep : s.step (.op w allocated) = some s') :
    Fine s s' := by
  rw [step] at hstep
  split at hstep
  next o ops hpc =>
    obtain rfl := Option.some.inj hstep
    have hw : (s.pc w).Connected := by
      rw [hpc]
      exact True.intro
    have hbody : (WorkerPc.body ops).Connected := True.intro
    exact h.goOn hw hbody (pays_op h hw o allocated)
  next hpc =>
    obtain rfl := Option.some.inj hstep
    have hw : (s.pc w).Connected := by
      rw [hpc]
      exact True.intro
    have hhead : WorkerPc.head.Connected := True.intro
    have hfine := h.goOn hw hhead (.nil fun _ => Iff.rfl)
    rwa [List.append_nil] at hfine
  next => cases hstep

/-- `mqtt_client_close` and `free(a)`. -/
theorem Sane.leave (h : s.Sane) (hstep : s.step (.leave w) = some s') : Fine s s' := by
  rw [step] at hstep
  split at hstep
  next hpc =>
    obtain rfl := Option.some.inj hstep
    have hw : (s.pc w).Connected := by
      rw [hpc]
      exact True.intro
    have hargs := Connected.hasArgs hw
    refine ⟨h.update hargs .finished nofun _, _, rfl, ?_⟩
    refine .release hw (fun u _ => loop_unused w u) (fun _ => Iff.rfl)
      (.touch ⟨nofun, hw⟩ (.release ⟨nofun, hw⟩ (fun u hu => mosq_unused hu.1) (fun _ => Iff.rfl)
        (.release ⟨nofun, nofun, hargs⟩ (fun u _ => args_unused w u) (fun _ => Iff.rfl)
          (.nil fun x => ?_))))
    rw [holds_finished]
  next => cases hstep

/-! ## `main` -/

theorem Sane.mainInit (hstep : s.step .mainInit = some s') (h : s.Sane) : Fine s s' := by
  rw [step] at hstep
  split at hstep
  next hm =>
    obtain rfl := Option.some.inj hstep
    have hnot : ∀ x, ¬ s.Holds x := by
      intro x
      have habsent := h.init hm
      cases x <;> simp [Holds, hm, habsent, MainPc.Inside, MainPc.Unjoined, WorkerPc.HasArgs,
        WorkerPc.Connected]
    refine ⟨⟨nofun, fun w _ => Or.inl (h.init hm w), nofun, ?_, nofun⟩, _, rfl, ?_⟩
    · rintro started next ⟨⟩
      exact ⟨rfl, fun w _ => h.init hm w⟩
    · refine .acquire (hnot _) nofun (fun _ => Iff.rfl) (.acquire
        (fun hx => hnot _ (hx.resolve_left nofun)) nofun (fun _ => Iff.rfl) (.nil fun x => ?_))
      have hx := hnot x
      cases x with
      | library | cache => exact iff_of_true True.intro (by simp)
      | thread w => exact iff_of_false List.not_mem_nil (by simpa using hx)
      | args w | mosq w | loop w | buf => exact iff_of_false hx (by simpa using hx)
  next => cases hstep

/-- A start that fails changes nothing that is held. -/
theorem Sane.fail (h : s.Sane) {started next : List Worker} (hm : s.main = .start started next)
    {es : SimEvents} (hes : Pays SimResource.uses s.Holds es s.Holds) :
    Fine s (s.fail started es) := by
  have hun : ∀ w, (s.fail started es).main.Unjoined w ↔ s.main.Unjoined w := by
    intro w
    rw [hm]
    exact Iff.rfl
  refine ⟨⟨fun w hw => h.unjoined w ((hun w).mp hw), fun w hw => h.idle w (hw ∘ (hun w).mpr),
    nofun, nofun, ?_⟩, es, rfl, hes.congr fun x => ?_⟩
  · rintro rest rc ⟨⟩
    have hnodup := nodup_workers
    rw [← (h.start started next hm).1] at hnodup
    exact hnodup.of_append_left
  · cases x with
    | thread w => exact hun w
    | library | cache =>
      show True ↔ s.main.Inside
      rw [hm]
      exact Iff.rfl
    | _ => exact Iff.rfl

/-- A thread is started. -/
theorem Sane.started (h : s.Sane) {started next : List Worker}
    (hm : s.main = .start started (w :: next)) (s' : Robot)
    (hs' : s' = { s with
      main := .start (started ++ [w]) next
      pc := Function.update s.pc w .created
      trace := s.trace ++ [.acquire (.args w), .acquire (.thread w)] }) : Fine s s' := by
  subst hs'
  obtain ⟨hworkers, hnext⟩ := h.start started (w :: next) hm
  have habsent := hnext w List.mem_cons_self
  have hun : ∀ v, s.main.Unjoined v ↔ v ∈ started := by
    intro v
    rw [hm]
    exact Iff.rfl
  have hw : w ∉ started := fun hw => h.unjoined w ((hun w).mpr hw) habsent
  have hnodup := nodup_workers
  rw [← hworkers, List.nodup_append'] at hnodup
  have hwnext : w ∉ next := (List.nodup_cons.mp hnodup.2.1).1
  have hinside : s.main.Inside := by
    rw [hm]
    exact True.intro
  have hother : ∀ {v : Worker}, v ≠ w → Function.update s.pc w .created v = s.pc v :=
    fun hv => Function.update_of_ne hv _ s.pc
  refine ⟨⟨fun v hv => ?_, fun v hv => ?_, nofun, ?_, nofun⟩, _, rfl, ?_⟩
  · by_cases hvw : v = w
    · subst hvw
      simp
    · have hv' : v ∈ started := (List.mem_append.mp hv).resolve_right
        fun hv => hvw (List.mem_singleton.mp hv)
      simpa [hother hvw] using h.unjoined v ((hun v).mpr hv')
  · have hvw : v ≠ w := fun e => hv (List.mem_append_right _ (List.mem_singleton.mpr e))
    have hv' : v ∉ started := fun hv' => hv (List.mem_append_left _ hv')
    simpa [hother hvw] using h.idle v (hv' ∘ (hun v).mp)
  · rintro started' next' ⟨⟩
    refine ⟨by rw [← hworkers, List.append_assoc, List.singleton_append], fun v hv => ?_⟩
    have hvw : v ≠ w := fun e => hwnext (e ▸ hv)
    simpa [hother hvw] using hnext v (List.mem_cons_of_mem w hv)
  · refine .acquire ?_ nofun (fun _ => Iff.rfl) (.acquire ?_ ?_ (fun _ => Iff.rfl)
      (.nil fun x => ?_))
    · show ¬ (s.pc w).HasArgs
      rw [habsent]
      exact id
    · rintro (hx | hx)
      · cases hx
      · exact hw ((hun w).mp hx)
    · simp only [SimResource.uses, List.forall_mem_cons]
      exact ⟨Or.inr hinside, Or.inr hinside, nofun⟩
    · cases x with
      | library | cache => exact iff_of_true True.intro (Or.inr (Or.inr hinside))
      | thread v =>
        show v ∈ started ++ [w] ↔ _ ∨ _ ∨ s.main.Unjoined v
        rw [hun]
        simp [or_comm]
      | args v =>
        by_cases hvw : v = w
        · subst hvw
          simp [Holds, WorkerPc.HasArgs]
        · simp [Holds, hvw]
      | mosq v | loop v =>
        by_cases hvw : v = w
        · subst hvw
          simp [Holds, habsent, WorkerPc.Connected]
        · simp [Holds, hvw]
      | buf => simp [Holds]

theorem Sane.mainStart (h : s.Sane) {calloc create : Bool}
    (hstep : s.step (.mainStart calloc create) = some s') : Fine s s' := by
  rw [step] at hstep
  split at hstep
  next started w next hm =>
    obtain ⟨hworkers, hnext⟩ := h.start started (w :: next) hm
    have habsent := hnext w List.mem_cons_self
    have hargs : ¬ s.Holds (.args w) := by
      show ¬ (s.pc w).HasArgs
      rw [habsent]
      exact id
    split at hstep
    next =>
      obtain rfl := Option.some.inj hstep
      exact h.fail hm (.nil fun _ => Iff.rfl)
    next =>
      split at hstep
      next =>
        obtain rfl := Option.some.inj hstep
        refine h.fail hm (.acquire hargs nofun (fun _ => Iff.rfl) (.release (Or.inl rfl)
          (fun u _ => args_unused w u) (fun _ => Iff.rfl) (.nil fun x => ?_)))
        have hx : s.Holds x → x ≠ .args w := fun hx e => hargs (e ▸ hx)
        tauto
      next =>
        obtain rfl := Option.some.inj hstep
        exact h.started hm _ rfl
  next => cases hstep

theorem Sane.mainStarted (h : s.Sane) (hstep : s.step .mainStarted = some s') : Fine s s' := by
  rw [step] at hstep
  split at hstep
  next started hm =>
    obtain rfl := Option.some.inj hstep
    have hun : ∀ w, w ∈ started ↔ s.main.Unjoined w := by
      intro w
      rw [hm]
      exact Iff.rfl
    refine ⟨⟨fun w hw => h.unjoined w ((hun w).mp hw), fun w hw => h.idle w (hw ∘ (hun w).mpr),
      nofun, nofun, ?_⟩, [], (List.append_nil _).symm, .nil fun x => ?_⟩
    · rintro rest rc ⟨⟩
      have hnodup := nodup_workers
      rwa [← (h.start started [] hm).1, List.append_nil] at hnodup
    · cases x with
      | thread w => exact hun w
      | library | cache =>
        show True ↔ s.main.Inside
        rw [hm]
        exact Iff.rfl
      | _ => exact Iff.rfl
  next => cases hstep

theorem Sane.mainJoin (h : s.Sane) (hstep : s.step .mainJoin = some s') : Fine s s' := by
  rw [step] at hstep
  split at hstep
  next w rest rc hm =>
    split at hstep
    next hpc =>
      obtain rfl := Option.some.inj hstep
      have hnodup := h.join (w :: rest) rc hm
      obtain ⟨hw, hrest⟩ := List.nodup_cons.mp hnodup
      have hun : ∀ v, s.main.Unjoined v ↔ v = w ∨ v ∈ rest := by
        intro v
        rw [hm]
        exact List.mem_cons
      have hunused : ∀ u, s.Holds u → .thread w ∉ u.uses := by
        intro u hu
        cases u with
        | mosq v =>
          intro hmem
          have hv : w = v := by simpa [SimResource.uses] using hmem
          subst hv
          have hconnected : (s.pc w).Connected := hu
          rw [hpc] at hconnected
          exact hconnected
        | _ => simp [SimResource.uses]
      refine ⟨⟨fun v hv => h.unjoined v ((hun v).mpr (Or.inr hv)), fun v hv => ?_, nofun, nofun,
        ?_⟩, _, rfl, .release ((hun w).mpr (Or.inl rfl)) hunused (fun _ => Iff.rfl)
          (.nil fun x => ?_)⟩
      · by_cases hvw : v = w
        · subst hvw
          exact Or.inr hpc
        · exact h.idle v fun hv' => ((hun v).mp hv').elim hvw hv
      · rintro rest' rc' ⟨⟩
        exact hrest
      · cases x with
        | thread v =>
          show v ∈ rest ↔ _ ∧ s.main.Unjoined v
          rw [hun, ne_eq, SimResource.thread.injEq]
          have hv : v ∈ rest → v ≠ w := fun hv e => hw (e ▸ hv)
          tauto
        | library | cache =>
          show True ↔ _ ∧ s.main.Inside
          rw [hm]
          exact ⟨fun _ => ⟨nofun, True.intro⟩, fun _ => True.intro⟩
        | _ => exact ⟨fun hx => ⟨nofun, hx⟩, And.right⟩
    next => cases hstep
  next => cases hstep

theorem Sane.mainReturn (h : s.Sane) (hstep : s.step .mainReturn = some s') : Fine s s' := by
  rw [step] at hstep
  split at hstep
  next rc hm =>
    obtain rfl := Option.some.inj hstep
    have hun : ∀ v, ¬ s.main.Unjoined v := by
      intro v
      rw [hm]
      exact List.not_mem_nil
    have hargs : ∀ v, ¬ (s.pc v).HasArgs := fun v hv => hun v (h.unjoined_of_args hv)
    have hinside : s.main.Inside := by
      rw [hm]
      exact True.intro
    have honly : ∀ x, s.Holds x ↔ x = .library ∨ x = .cache := by
      intro x
      cases x with
      | library | cache => exact iff_of_true hinside (by simp)
      | thread v => exact iff_of_false (hun v) (by simp)
      | args v => exact iff_of_false (hargs v) (by simp)
      | mosq v | loop v => exact iff_of_false (fun hv => hargs v (Connected.hasArgs hv)) (by simp)
      | buf => exact iff_of_false id (by simp)
    refine ⟨⟨fun _ hv => hv.elim, fun v _ => h.idle v (hun v), nofun, nofun, nofun⟩, _, rfl, ?_⟩
    refine .release hinside (fun u hu => ?_) (fun _ => Iff.rfl)
      (.release ⟨nofun, hinside⟩ (fun u hu => ?_) (fun _ => Iff.rfl) (.nil fun x => ?_))
    · rcases (honly u).mp hu with rfl | rfl <;> simp [SimResource.uses]
    · rcases (honly u).mp hu.2 with rfl | rfl <;> simp [SimResource.uses]
    · refine iff_of_false ?_ fun hx => ?_
      · cases x with
        | args v => exact hargs v
        | mosq v | loop v => exact fun hv => hargs v (Connected.hasArgs hv)
        | _ => exact id
      · rcases (honly x).mp hx.2.2 with rfl | rfl
        · exact hx.2.1 rfl
        · exact hx.1 rfl
  next => cases hstep

/-! ## Every run -/

theorem Sane.next (h : s.Sane) (hstep : s.step a = some s') : Fine s s' := by
  cases a with
  | mainInit => exact Sane.mainInit hstep h
  | mainStart calloc create => exact h.mainStart hstep
  | mainStarted => exact h.mainStarted hstep
  | mainJoin => exact h.mainJoin hstep
  | mainReturn => exact h.mainReturn hstep
  | signal =>
    obtain rfl := Option.some.inj hstep
    exact ⟨⟨h.unjoined, h.idle, h.init, h.start, h.join⟩, [], (List.append_nil _).symm,
      .nil fun _ => Iff.rfl⟩
  | connect w a => exact h.connect hstep
  | head w => exact h.head hstep
  | op w allocated => exact h.op hstep
  | leave w => exact h.leave hstep

theorem sane_init : init.Sane := by
  refine ⟨nofun, fun _ _ => Or.inl rfl, fun _ _ => rfl, nofun, nofun⟩

/-- What was done so far is in order, and leaves what the state holds. -/
structure Orderly (s : Robot) : Prop where
  sane : s.Sane
  ledger : ∃ held, exec (resourceStep SimResource.uses) [] s.trace = some held ∧
    Ledger held s.Holds

theorem orderly_init : init.Orderly := by
  refine ⟨sane_init, [], rfl, List.nodup_nil, fun r => iff_of_false List.not_mem_nil ?_⟩
  cases r <;> exact id

theorem Orderly.next (h : s.Orderly) (hstep : s.step a = some s') : s'.Orderly := by
  obtain ⟨hsane, es, htrace, hpays⟩ := h.sane.next hstep
  obtain ⟨held, hrun, hledger⟩ := h.ledger
  obtain ⟨held', hrun', hledger'⟩ := hpays held hledger
  exact ⟨hsane, held', by rw [htrace]; exact exec_trans hrun hrun', hledger'⟩

theorem Orderly.nothing_left (h : s.Orderly) {rc : Nat} (hm : s.main = .returned rc)
    (x : SimResource) : ¬ s.Holds x := by
  have hun : ∀ v, ¬ s.main.Unjoined v := by
    intro v
    rw [hm]
    exact id
  have hargs : ∀ v, ¬ (s.pc v).HasArgs := fun v hv => hun v (h.sane.unjoined_of_args hv)
  cases x with
  | library | cache =>
    show ¬ s.main.Inside
    rw [hm]
    exact id
  | thread v => exact hun v
  | args v => exact hargs v
  | mosq v | loop v => exact fun hv => hargs v (Connected.hasArgs hv)
  | buf => exact id

/-! ## `main` returns -/

theorem worker_goes_on (hw : s.pc w ≠ .absent) (hw' : s.pc w ≠ .finished) :
    ∃ a, a ≠ .signal ∧ (s.step a).isSome := by
  cases hpc : s.pc w with
  | absent => exact absurd hpc hw
  | finished => exact absurd hpc hw'
  | created => exact ⟨.connect w ⟨false, false, false⟩, nofun, by simp [step, hpc, mqttClientConnect]⟩
  | head => exact ⟨.head w, nofun, by simp [step, hpc]⟩
  | body ops =>
    refine ⟨.op w false, nofun, ?_⟩
    cases ops <;> simp [step, hpc]
  | leaving => exact ⟨.leave w, nofun, by simp [step, hpc]⟩

/-- `main` and the threads never wait for each other in a circle. -/
theorem Sane.goes_on (h : s.Sane) (hm : ∀ rc, s.main ≠ .returned rc) :
    ∃ a, a ≠ .signal ∧ (s.step a).isSome := by
  cases hmain : s.main with
  | returned rc => exact absurd hmain (hm rc)
  | init => exact ⟨.mainInit, nofun, by simp [step, hmain]⟩
  | start started next =>
    cases next with
    | nil => exact ⟨.mainStarted, nofun, by simp [step, hmain]⟩
    | cons w next => exact ⟨.mainStart false false, nofun, by simp [step, hmain]⟩
  | join rest rc =>
    cases rest with
    | nil => exact ⟨.mainReturn, nofun, by simp [step, hmain]⟩
    | cons w rest =>
      by_cases hpc : s.pc w = .finished
      · exact ⟨.mainJoin, nofun, by simp [step, hmain, hpc]⟩
      · refine worker_goes_on (h.unjoined w ?_) hpc
        rw [hmain]
        exact List.mem_cons_self

end Robot

/-- How many steps a thread that is told to stop can still take, at most. -/
def WorkerPc.rank : WorkerPc → Nat
  | .absent | .finished => 0
  | .leaving => 1
  | .head => 2
  | .body ops => 3 + ops.length
  | .created => 3

def MainPc.rank : MainPc → Nat
  | .init => 58
  | .start _ next => 7 + 10 * next.length
  | .join rest _ => 1 + rest.length
  | .returned _ => 0

namespace Robot

variable {s s' : Robot} {w : Worker} {a : RobotAction}

def rank (s : Robot) : Nat := s.main.rank + (workers.map fun w => (s.pc w).rank).sum

theorem rank_update (pc : Worker → WorkerPc) (w : Worker) (x : WorkerPc) :
    (workers.map fun v => (Function.update pc w x v).rank).sum + (pc w).rank =
      (workers.map fun v => (pc v).rank).sum + x.rank := by
  cases w <;> simp [workers, Function.update] <;> omega

theorem Sane.length_started (h : s.Sane) {started next : List Worker}
    (hm : s.main = .start started next) : started.length ≤ 5 := by
  have hlength := congrArg List.length (h.start started next hm).1
  rw [List.length_append] at hlength
  have hworkers : workers.length = 5 := rfl
  omega

/-- A step of a thread that lowers its rank. -/
theorem rank_lt_of_update {pc : WorkerPc} {t : SimEvents} (h : pc.rank < (s.pc w).rank) :
    ({ s with pc := Function.update s.pc w pc, trace := t } : Robot).rank < s.rank := by
  have hsum := rank_update s.pc w pc
  show s.main.rank + (workers.map fun v => (Function.update s.pc w pc v).rank).sum <
    s.main.rank + (workers.map fun v => (s.pc v).rank).sum
  omega

theorem rank_lt_of_main {m : MainPc} {t : SimEvents} (h : m.rank < s.main.rank) :
    ({ s with main := m, trace := t } : Robot).rank < s.rank := Nat.add_lt_add_right h _

/-- Behind a signal every step brings the end nearer. -/
theorem Sane.rank_lt (h : s.Sane) (hrunning : s.running = false) (ha : a ≠ .signal)
    (hstep : s.step a = some s') : s'.rank < s.rank ∧ s'.running = false := by
  cases a with
  | signal => exact absurd rfl ha
  | mainInit =>
    rw [step] at hstep
    split at hstep
    next hm =>
      obtain rfl := Option.some.inj hstep
      refine ⟨rank_lt_of_main ?_, hrunning⟩
      rw [hm]
      decide
    next => cases hstep
  | mainStart calloc create =>
    rw [step] at hstep
    split at hstep
    next started w next hm =>
      have hlength := h.length_started hm
      have hfail : ∀ es, (s.fail started es).rank < s.rank ∧
          (s.fail started es).running = false := by
        intro es
        refine ⟨?_, ?_⟩
        · refine Nat.add_lt_add_right ?_ _
          rw [hm]
          show 1 + started.length < 7 + 10 * (w :: next).length
          omega
        · simp [Robot.fail, hrunning]
      split at hstep
      next =>
        obtain rfl := Option.some.inj hstep
        exact hfail _
      next =>
        split at hstep
        next =>
          obtain rfl := Option.some.inj hstep
          exact hfail _
        next =>
          obtain rfl := Option.some.inj hstep
          refine ⟨?_, hrunning⟩
          have hsum := rank_update s.pc w .created
          have habsent := (h.start started (w :: next) hm).2 w List.mem_cons_self
          simp only [rank, hm, MainPc.rank, List.length_cons]
          rw [habsent] at hsum
          simp only [WorkerPc.rank] at hsum ⊢
          omega
    next => cases hstep
  | mainStarted =>
    rw [step] at hstep
    split at hstep
    next started hm =>
      obtain rfl := Option.some.inj hstep
      have hlength := h.length_started hm
      refine ⟨Nat.add_lt_add_right ?_ _, hrunning⟩
      rw [hm]
      simp only [MainPc.rank, List.length_nil]
      omega
    next => cases hstep
  | mainJoin =>
    rw [step] at hstep
    split at hstep
    next w rest rc hm =>
      split at hstep
      next =>
        obtain rfl := Option.some.inj hstep
        refine ⟨rank_lt_of_main ?_, hrunning⟩
        rw [hm]
        simp only [MainPc.rank, List.length_cons]
        omega
      next => cases hstep
    next => cases hstep
  | mainReturn =>
    rw [step] at hstep
    split at hstep
    next rc hm =>
      obtain rfl := Option.some.inj hstep
      refine ⟨rank_lt_of_main ?_, hrunning⟩
      rw [hm]
      exact Nat.one_pos
    next => cases hstep
  | connect w a =>
    rw [step] at hstep
    split at hstep
    next hpc =>
      dsimp only at hstep
      split at hstep
      next =>
        obtain rfl := Option.some.inj hstep
        exact ⟨rank_lt_of_update (by rw [hpc]; decide), hrunning⟩
      next =>
        obtain rfl := Option.some.inj hstep
        exact ⟨rank_lt_of_update (by rw [hpc]; decide), hrunning⟩
    next => cases hstep
  | head w =>
    rw [step] at hstep
    split at hstep
    next hpc =>
      obtain rfl := Option.some.inj hstep
      refine ⟨rank_lt_of_update ?_, hrunning⟩
      rw [hrunning, if_neg Bool.false_ne_true, hpc]
      decide
    next => cases hstep
  | op w allocated =>
    rw [step] at hstep
    split at hstep
    next o ops hpc =>
      obtain rfl := Option.some.inj hstep
      refine ⟨rank_lt_of_update ?_, hrunning⟩
      rw [hpc]
      exact Nat.lt_succ_self _
    next hpc =>
      obtain rfl := Option.some.inj hstep
      exact ⟨rank_lt_of_update (by rw [hpc]; decide), hrunning⟩
    next => cases hstep
  | leave w =>
    rw [step] at hstep
    split at hstep
    next hpc =>
      obtain rfl := Option.some.inj hstep
      exact ⟨rank_lt_of_update (by rw [hpc]; decide), hrunning⟩
    next => cases hstep

theorem Orderly.length_le (h : s.Orderly) (hrunning : s.running = false) {bs : List RobotAction}
    (hbs : ∀ b ∈ bs, b ≠ .signal) (hrun : exec step s bs = some s') : bs.length ≤ s.rank := by
  induction bs generalizing s with
  | nil => exact Nat.zero_le _
  | cons b bs ih =>
    obtain ⟨hb, hbs⟩ := List.forall_mem_cons.mp hbs
    obtain ⟨m, hm, hrest⟩ := exec_cons hrun
    obtain ⟨hlt, hstopped⟩ := h.sane.rank_lt hrunning hb hm
    exact Nat.lt_of_le_of_lt (ih (h.next hm) hstopped hbs hrest) hlt

/-- **The simulator ends in order.** `main` and its five threads take steps in any interleaving,
a signal may come at any time, and any call may fail. First, the trace of what is taken, used
and given back is a run of the resources: nothing is used that is not there or given back before
its users, and when `main` returns nothing is held. Second, as long as `main` has not returned
some step other than a signal is possible, so nobody is stuck. Third, once `running` has been
cleared the number of steps that are still to come, other signals apart, is bounded by `rank`, a
number that can be read off the state; so behind a signal `main` returns however the steps are
interleaved. -/
theorem robot_in_order {as : List RobotAction} (h : exec step init as = some s) :
    (∃ held, exec (resourceStep SimResource.uses) [] s.trace = some held ∧
      ∀ rc, s.main = .returned rc → held = []) ∧
    ((∀ rc, s.main ≠ .returned rc) → ∃ a, a ≠ .signal ∧ (s.step a).isSome) ∧
    (s.running = false → ∀ bs s', (∀ b ∈ bs, b ≠ .signal) → exec step s bs = some s' →
      bs.length ≤ s.rank) := by
  have horderly : s.Orderly := exec_preserves (fun _ _ _ hs hstep => hs.next hstep) orderly_init h
  obtain ⟨held, hrun, hledger⟩ := horderly.ledger
  refine ⟨⟨held, hrun, fun rc hm => ?_⟩, horderly.sane.goes_on, fun hrunning bs s' hbs hbs' =>
    horderly.length_le hrunning hbs hbs'⟩
  refine List.eq_nil_iff_forall_not_mem.mpr fun r hr => ?_
  exact horderly.nothing_left hm r ((hledger.mem r).mp hr)

/-- The third thread is not created, and the first one cannot connect. -/
theorem robot_in_order_failed :
    let as : List RobotAction := [.mainInit, .mainStart true true, .mainStart true true,
      .connect .imu ⟨true, false, true⟩, .connect .tilt ⟨true, true, true⟩, .head .tilt,
      .mainStart true false, .op .tilt true, .op .tilt true, .op .tilt true, .head .tilt,
      .leave .tilt, .mainJoin, .mainJoin, .mainReturn]
    ∃ s, exec step init as = some s ∧ s.main = .returned 1 ∧
      exec (resourceStep SimResource.uses) [] s.trace = some [] := by
  intro as
  obtain ⟨s, hs, hmain⟩ : ∃ s, exec step init as = some s ∧ s.main = .returned 1 := ⟨_, rfl, rfl⟩
  obtain ⟨⟨held, hrun, hreturned⟩, -⟩ := robot_in_order hs
  exact ⟨s, hs, hmain, by rw [hrun, hreturned 1 hmain]⟩

end Robot

end TelemetryTestbed.Sim

import TelemetryTestbed.Gateway.Wakeup

/-!
# No wake-up is lost

Every access to the queue and every signal is made by the holder of the mutex, and
`writer_thread` holds it from its tests to the moment it waits. So a sample cannot be
linked in between, and its signal comes while the thread waits. `running` may be cleared
in between; but the broadcast of `telemetry_gateway_stop` is made by the holder too, so
it comes after the wait has begun, or before the test, which then finds `running` at 0.

The invariant (`Synced`) says who is inside the mutex, what the waiting thread has seen before
it waited, and that a sample linked in while it is blocked belongs to a push that has not
signalled yet. Each action is one case of the step lemma. No fairness is assumed, so the law
is about what is pending, not about what will be.
-/

namespace TelemetryTestbed.Gateway

open TelemetryTestbed.Lib TelemetryTestbed.Telemetry

/-! ## Who holds the mutex -/

def PushPc.inside : PushPc → Bool
  | link _ | signal | unlock => true
  | idle | lock _ => false

def PopPc.inside : PopPc → Bool
  | testRunning | testHead | wait | take | unlock _ => true
  | head | lock | blocked | returned _ | done => false

def StopperPc.inside : StopperPc → Bool
  | broadcast | unlock => true
  | idle | lock | joinWriter | joined => false

/-- `pthread_cond_broadcast` has been executed. -/
def StopperPc.hasBroadcast : StopperPc → Bool
  | unlock | joinWriter | joined => true
  | idle | lock | broadcast => false

namespace QueueThreads

/-- The thread is between its lock and its unlock. -/
def inside (g : QueueThreads) : Party → Bool
  | .push i => (g.push i).inside
  | .writer => g.pop.inside
  | .stop => g.stop.inside

/-- `writer_thread` has been woken, or a push that has linked its sample in holds the
mutex and goes on to its signal. -/
def WakeupPending (g : QueueThreads) : Prop :=
  g.monitor.waiting .writer = some true ∨
    ∃ i, g.push i = .signal ∧ g.monitor.owner = some (.push i)

/-- The invariant of the wake-up. While the writer is blocked with a node in the list some push
has still to signal, and once the stop has broadcast the writer is not blocked. -/
structure Synced (g : QueueThreads) : Prop where
  owner : g.monitor.Exclusive g.inside
  waiting : g.monitor.Blocked .writer → g.pop = .blocked
  registered : g.pop = .blocked → g.monitor.waiting .writer ≠ none
  rep : ∃ l, g.queue.Rep l
  maxn : 0 < g.maxn
  stopping : g.stop ≠ .idle → g.running = false
  tested : g.pop = .testHead ∨ g.pop = .wait → g.stop.hasBroadcast = false
  empty : g.pop = .wait → g.queue.head = none
  linked : g.monitor.Blocked .writer → g.queue.head ≠ none → ∃ i, g.push i = .signal
  live : g.monitor.Blocked .writer → g.stop.hasBroadcast = false
  nonempty : g.pop = .take → g.running = true → g.queue.head ≠ none
  zero : g.pop = .unlock [] ∨ g.pop = .returned [] → g.running = false

variable {g g' : QueueThreads}

theorem synced_init (batchSize : Int) (batch : Bool) : (init batchSize batch).Synced where
  owner p := by cases p <;> exact ⟨nofun, nofun⟩
  waiting := nofun
  registered := nofun
  rep := ⟨[], Queue.rep_empty⟩
  maxn := by
    show 0 < if batch then (if 0 < batchSize then batchSize.toNat else 50) else 1
    split
    · split <;> omega
    · omega
  stopping h := absurd rfl h
  tested := nofun
  empty := nofun
  linked := nofun
  live := nofun
  nonempty := nofun
  zero := nofun

/-! ## What a step does to the parties -/

section

variable {i : Nat} {pc : PushPc}

theorem inside_setPush (g : QueueThreads) (i : Nat) (pc : PushPc) :
    (g.setPush i pc).inside = Function.update g.inside (.push i) pc.inside := by
  funext p
  cases p with
  | push j =>
    by_cases hj : j = i
    · rw [hj, Function.update_self]
      exact congrArg PushPc.inside (Function.update_self _ _ _)
    · rw [Function.update_of_ne (fun e => hj (Party.push.inj e))]
      exact congrArg PushPc.inside (Function.update_of_ne hj _ _)
  | writer | stop => rfl

theorem inside_pop (g : QueueThreads) (pc : PopPc) :
    { g with pop := pc }.inside = Function.update g.inside .writer pc.inside := by
  funext p
  cases p with
  | writer =>
    rw [Function.update_self]
    rfl
  | push j | stop => rfl

theorem inside_stop (g : QueueThreads) (pc : StopperPc) :
    { g with stop := pc }.inside = Function.update g.inside .stop pc.inside := by
  funext p
  cases p with
  | stop =>
    rw [Function.update_self]
    rfl
  | push j | writer => rfl

/-- A push that has its signal to give still has it when another one has moved. -/
theorem signal_setPush (hi : g.push i ≠ .signal) (h : ∃ j, g.push j = .signal) :
    ∃ j, (g.setPush i pc).push j = .signal := by
  obtain ⟨j, hj⟩ := h
  have hne : j ≠ i := fun e => hi (e ▸ hj)
  exact ⟨j, (Function.update_of_ne hne _ _).trans hj⟩

end

theorem Synced.call {i : Nat} {s : Sample} (h : g.Synced) (hstep : g.callStep i s = some g') :
    g'.Synced := by
  unfold callStep at hstep
  split at hstep
  next hi =>
    cases hstep
    have hne : g.push i ≠ .signal := by rw [hi]; exact PushPc.noConfusion
    refine { h with owner := ?_, linked := fun hb hq => signal_setPush hne (h.linked hb hq) }
    rw [inside_setPush]
    exact h.owner.stay rfl (by rw [inside, hi]; rfl)
  next => cases hstep

theorem Synced.pushMoves {i : Nat} (h : g.Synced) (hstep : g.pushStep i = some g') :
    g'.Synced := by
  unfold pushStep at hstep
  split at hstep
  next s hi =>
    obtain ⟨monitor, hlock, rfl⟩ := Option.map_eq_some_iff.mp hstep
    obtain ⟨howner, rfl⟩ := Monitor.lock_eq_some hlock
    have hne : g.push i ≠ .signal := by rw [hi]; exact PushPc.noConfusion
    refine { h with owner := ?_, linked := fun hb hq => signal_setPush hne (h.linked hb hq) }
    exact inside_setPush g i _ ▸ h.owner.enter howner rfl
  next hi =>
    cases hstep
    have hnot : ¬ (g.monitor.signal .writer).Blocked .writer := Monitor.not_blocked_signal
    refine { h with owner := ?_, waiting := ?_, registered := ?_, linked := ?_, live := ?_ }
    · exact inside_setPush g i _ ▸ h.owner.stay rfl (by rw [inside, hi]; rfl)
    · exact fun hb => absurd hb hnot
    · exact fun hpop => Monitor.waiting_signal_ne_none (h.registered hpop)
    · exact fun hb => absurd hb hnot
    · exact fun hb => absurd hb hnot
  next hi =>
    cases hstep
    have hne : g.push i ≠ .signal := by rw [hi]; exact PushPc.noConfusion
    have hin : g.inside (.push i) = true := by rw [inside, hi]; rfl
    refine { h with owner := ?_, linked := fun hb hq => signal_setPush hne (h.linked hb hq) }
    exact inside_setPush g i _ ▸ h.owner.leave hin rfl
  next => cases hstep

/-- A sample is linked in while `writer_thread` is outside of its critical section. -/
theorem Synced.link {i : Nat} {r : Addr} (h : g.Synced) (hstep : g.linkStep i r = some g') :
    g'.Synced := by
  unfold linkStep at hstep
  split at hstep
  next s hi =>
    split at hstep
    next hr =>
      cases hstep
      have hin : g.inside (.push i) = true := by rw [inside, hi]; rfl
      have hout : ∀ pc : PopPc, pc.inside = true → g.pop ≠ pc := by
        intro pc hpc hpop
        have hwriter : g.inside .writer = true := by rw [inside, hpop]; exact hpc
        cases h.owner.unique hin hwriter
      obtain ⟨l, hl⟩ := h.rep
      refine { h with owner := ?_, rep := ⟨l ++ [s], hl.push hr⟩, empty := ?_, linked := ?_,
                      nonempty := ?_ }
      · exact inside_setPush g i _ ▸ h.owner.stay rfl hin.symm
      · exact fun hpop => absurd hpop (hout .wait rfl)
      · exact fun _ _ => ⟨i, Function.update_self _ _ _⟩
      · exact fun hpop => absurd hpop (hout .take rfl)
    next => cases hstep
  next => cases hstep

/-- Coming out of the wait, `writer_thread` tests again. -/
theorem Synced.resume {spurious : Bool} {monitor : Monitor Party} (h : g.Synced)
    (hr : g.monitor.resume .writer spurious = some monitor) :
    { g with monitor, pop := .testRunning }.Synced := by
  obtain ⟨howner, howner', hwaiting⟩ := Monitor.resume_eq_some hr
  have hnot : ¬ monitor.Blocked .writer := by
    rw [Monitor.Blocked, hwaiting, Function.update_self]
    rintro ⟨⟩
  refine { h with owner := ?_, waiting := ?_, registered := ?_, tested := ?_, empty := ?_,
                  linked := ?_, live := ?_, nonempty := ?_, zero := ?_ }
  · exact inside_pop { g with monitor } _ ▸ h.owner.enter howner howner'
  · exact fun hb => absurd hb hnot
  · rintro ⟨⟩
  · rintro (hpop | hpop) <;> cases hpop
  · rintro ⟨⟩
  · exact fun hb => absurd hb hnot
  · exact fun hb => absurd hb hnot
  · rintro ⟨⟩
  · rintro (hpop | hpop) <;> cases hpop

/-- The writer goes on outside of its critical section. -/
theorem Synced.popMoves (h : g.Synced) (hstep : g.popStep = some g') : g'.Synced := by
  have hblocked : ∀ {P : Prop}, g.pop ≠ .blocked → g.monitor.Blocked .writer → P :=
    fun hpop hb => absurd (h.waiting hb) hpop
  unfold popStep at hstep
  split at hstep
  next hpop =>
    cases hstep
    have hne : g.pop ≠ .blocked := by rw [hpop]; exact nofun
    have hout : (if g.running then PopPc.lock else .done).inside = g.inside .writer := by
      rw [inside, hpop]
      split <;> rfl
    refine { h with owner := ?_, waiting := hblocked hne, registered := ?_, tested := ?_,
                    empty := ?_, nonempty := ?_, zero := ?_ }
    · exact inside_pop g _ ▸ h.owner.stay rfl hout
    all_goals dsimp only; split <;> exact nofun
  next hpop =>
    obtain ⟨monitor, hlock, rfl⟩ := Option.map_eq_some_iff.mp hstep
    obtain ⟨howner, rfl⟩ := Monitor.lock_eq_some hlock
    have hne : g.pop ≠ .blocked := by rw [hpop]; exact nofun
    refine { h with owner := ?_, waiting := hblocked hne, registered := nofun, tested := nofun,
                    empty := nofun, nonempty := nofun, zero := nofun }
    exact inside_pop { g with monitor := _ } _ ▸ h.owner.enter howner rfl
  next hpop =>
    cases hstep
    have hne : g.pop ≠ .blocked := by rw [hpop]; exact nofun
    have hin : (if g.running then PopPc.testHead else .take).inside = g.inside .writer := by
      rw [inside, hpop]
      split <;> rfl
    refine { h with owner := inside_pop g _ ▸ h.owner.stay rfl hin, waiting := hblocked hne,
                    registered := ?_, tested := ?_, empty := ?_, nonempty := ?_, zero := ?_ }
    · dsimp only
      split <;> exact nofun
    · -- `running` was 1, so the stop has not even begun.
      intro htest
      cases hstop : g.stop with
      | idle | lock | broadcast => rfl
      | unlock | joinWriter | joined =>
        have hrun : g.running = false := h.stopping (by rw [hstop]; exact nofun)
        rw [hrun] at htest
        rcases htest with e | e <;> cases e
    · dsimp only
      split <;> exact nofun
    · intro htake hrun
      rw [hrun] at htake
      cases htake
    · dsimp only
      split <;> exact nofun
  next hpop =>
    cases hstep
    have hne : g.pop ≠ .blocked := by rw [hpop]; exact nofun
    have hin : (if g.queue.head = none then PopPc.wait else .take).inside = g.inside .writer := by
      rw [inside, hpop]
      split <;> rfl
    refine { h with owner := inside_pop g _ ▸ h.owner.stay rfl hin, waiting := hblocked hne,
                    registered := ?_, tested := fun _ => h.tested (Or.inl hpop), empty := ?_,
                    nonempty := ?_, zero := ?_ }
    · dsimp only
      split <;> exact nofun
    · intro hwait
      by_contra hhead
      rw [if_neg hhead] at hwait
      cases hwait
    · intro htake _ hhead
      rw [if_pos hhead] at htake
      cases htake
    · dsimp only
      split <;> exact nofun
  next hpop =>
    cases hstep
    have hin : g.inside .writer = true := by rw [inside, hpop]; rfl
    have hsome : (g.monitor.wait .writer).waiting .writer ≠ none := by
      dsimp only [Monitor.wait]
      rw [Function.update_self]
      exact Option.some_ne_none _
    refine { h with owner := ?_, waiting := fun _ => rfl, registered := fun _ => hsome,
                    tested := nofun, empty := nofun,
                    linked := fun _ hhead => absurd (h.empty hpop) hhead,
                    live := fun _ => h.tested (Or.inr hpop), nonempty := nofun, zero := nofun }
    exact inside_pop { g with monitor := _ } _ ▸ h.owner.leave hin rfl
  next hpop =>
    obtain ⟨monitor, hresume, rfl⟩ := Option.map_eq_some_iff.mp hstep
    exact h.resume hresume
  next hpop =>
    cases hstep
    have hne : g.pop ≠ .blocked := by rw [hpop]; exact nofun
    have hin : g.inside .writer = true := by rw [inside, hpop]; rfl
    obtain ⟨l, hl⟩ := h.rep
    obtain ⟨htake, hdrop⟩ := hl.popBatch g.maxn
    refine { h with owner := inside_pop { g with queue := _ } _ ▸ h.owner.stay rfl hin.symm,
                    waiting := hblocked hne, registered := nofun, rep := ⟨_, hdrop⟩,
                    tested := nofun, empty := nofun, linked := hblocked hne, nonempty := nofun,
                    zero := ?_ }
    intro hzero
    by_contra hrun
    have hhead := h.nonempty hpop (by simpa using hrun)
    have hl0 : l ≠ [] := fun e => hhead (hl.head_eq_none.mpr e)
    have hout : l.take g.maxn = [] := by
      rw [← htake]
      rcases hzero with e | e
      · exact PopPc.unlock.inj e
      · cases e
    rcases List.take_eq_nil_iff.mp hout with e | e
    · exact absurd e (Nat.ne_of_gt h.maxn)
    · exact hl0 e
  next out hpop =>
    cases hstep
    have hne : g.pop ≠ .blocked := by rw [hpop]; exact nofun
    have hin : g.inside .writer = true := by rw [inside, hpop]; rfl
    refine { h with owner := inside_pop { g with monitor := _ } _ ▸ h.owner.leave hin rfl,
                    waiting := hblocked hne, registered := nofun, tested := nofun,
                    empty := nofun, nonempty := nofun, zero := fun hzero => h.zero (Or.inl ?_) }
    rcases hzero with e | e
    · cases e
    · rw [hpop, PopPc.returned.inj e]
  next out hpop =>
    cases hstep
    have hne : g.pop ≠ .blocked := by rw [hpop]; exact nofun
    refine { h with owner := inside_pop g _ ▸ h.owner.stay rfl (by rw [inside, hpop]; rfl),
                    waiting := hblocked hne, registered := nofun, tested := nofun,
                    empty := nofun, nonempty := nofun, zero := nofun }
  next => cases hstep

theorem Synced.stopMoves (h : g.Synced) (hstep : g.stopStep = some g') : g'.Synced := by
  unfold stopStep at hstep
  split at hstep
  next hstop =>
    cases hstep
    have hout : StopperPc.lock.inside = g.inside .stop := by rw [inside, hstop]; rfl
    exact { h with owner := inside_stop { g with running := _ } _ ▸ h.owner.stay rfl hout,
                   stopping := fun _ => rfl, tested := fun _ => rfl, live := fun _ => rfl,
                   nonempty := fun _ => nofun, zero := fun _ => rfl }
  next hstop =>
    obtain ⟨monitor, hlock, rfl⟩ := Option.map_eq_some_iff.mp hstep
    obtain ⟨howner, rfl⟩ := Monitor.lock_eq_some hlock
    have hrun : g.running = false := h.stopping (by rw [hstop]; exact nofun)
    exact { h with owner := inside_stop { g with monitor := _ } _ ▸ h.owner.enter howner rfl,
                   stopping := fun _ => hrun, tested := fun _ => rfl, live := fun _ => rfl }
  next hstop =>
    cases hstep
    have hin : g.inside .stop = true := by rw [inside, hstop]; rfl
    have hrun : g.running = false := h.stopping (by rw [hstop]; exact nofun)
    have hnot : ¬ g.monitor.broadcast.Blocked .writer := Monitor.not_blocked_broadcast
    refine { h with owner := inside_stop { g with monitor := _ } _ ▸ h.owner.stay rfl hin.symm,
                    waiting := fun hb => absurd hb hnot,
                    registered := fun hpop => Monitor.waiting_broadcast_ne_none (h.registered hpop),
                    stopping := fun _ => hrun, tested := ?_,
                    linked := fun hb => absurd hb hnot, live := fun hb => absurd hb hnot }
    intro htest
    have hwriter : g.inside .writer = true := by
      rcases htest with e | e <;> (rw [inside, show g.pop = _ from e]; rfl)
    cases h.owner.unique hin hwriter
  next hstop =>
    cases hstep
    have hin : g.inside .stop = true := by rw [inside, hstop]; rfl
    have hrun : g.running = false := h.stopping (by rw [hstop]; exact nofun)
    have hdone : g.stop.hasBroadcast = true := by rw [hstop]; rfl
    exact { h with owner := inside_stop { g with monitor := _ } _ ▸ h.owner.leave hin rfl,
                   stopping := fun _ => hrun,
                   tested := fun ht => absurd hdone (by rw [h.tested ht]; exact nofun),
                   live := fun hb => absurd hdone (by rw [h.live hb]; exact nofun) }
  next hstop =>
    split at hstep
    next hpop =>
      cases hstep
      have hrun : g.running = false := h.stopping (by rw [hstop]; exact nofun)
      have hdone : g.stop.hasBroadcast = true := by rw [hstop]; rfl
      exact { h with owner := inside_stop g _ ▸ h.owner.stay rfl (by rw [inside, hstop]; rfl),
                     stopping := fun _ => hrun,
                     tested := fun ht => absurd hdone (by rw [h.tested ht]; exact nofun),
                     live := fun hb => absurd hdone (by rw [h.live hb]; exact nofun) }
    next => cases hstep
  next => cases hstep

theorem Synced.spurious (h : g.Synced) (hstep : g.spuriousStep = some g') : g'.Synced := by
  unfold spuriousStep at hstep
  split at hstep
  next =>
    obtain ⟨monitor, hresume, rfl⟩ := Option.map_eq_some_iff.mp hstep
    exact h.resume hresume
  next => cases hstep

theorem Synced.step {a : QueueAction} (h : g.Synced) (hstep : g.step a = some g') :
    g'.Synced := by
  cases a with
  | call i s => exact h.call hstep
  | push i => exact h.pushMoves hstep
  | linked i r => exact h.link hstep
  | pop => exact h.popMoves hstep
  | spurious => exact h.spurious hstep
  | stop => exact h.stopMoves hstep

/-- In every state of every run. -/
theorem synced_of_run {batchSize : Int} {batch : Bool} {as : List QueueAction}
    (h : exec QueueThreads.step (init batchSize batch) as = some g) : g.Synced :=
  exec_preserves (fun _ _ _ hg hstep => Synced.step hg hstep) (synced_init batchSize batch) h

/-- Without a wake-up on its way, `writer_thread` stays in its wait only for an empty
queue and before the broadcast. -/
theorem Synced.pending (h : g.Synced) (hpop : g.pop = .blocked)
    (hneed : g.queue.head ≠ none ∨ g.stop.hasBroadcast = true) : g.WakeupPending := by
  cases hwoken : g.monitor.waiting .writer with
  | none => exact absurd hwoken (h.registered hpop)
  | some woken =>
    cases woken with
    | true => exact Or.inl hwoken
    | false =>
      rcases hneed with hhead | hdone
      · obtain ⟨i, hi⟩ := h.linked hwoken hhead
        have hin : g.inside (.push i) = true := by rw [inside, hi]; rfl
        exact Or.inr ⟨i, hi, (h.owner (.push i)).mpr hin⟩
      · cases (h.live hwoken).symm.trans hdone

end QueueThreads

/-- **No wake-up is lost.** Whatever order the pushes, the writer and the stop move in, one
access at a time, and whether or not waits end without a signal: while the writer is blocked in
`pthread_cond_wait` and there is a sample in the queue, or the broadcast of the stop has been
made, its wake-up is on the way (`WakeupPending`: it has been woken, or a push that holds the
mutex goes on to its signal). And a batch of no samples is returned only after `running` was
cleared. Whether the thread that is to run next ever does is left to the scheduler. -/
theorem no_lost_wakeup {batchSize : Int} {batch : Bool} {as : List QueueAction}
    {g : QueueThreads} (h : exec QueueThreads.step (.init batchSize batch) as = some g) :
    (g.pop = .blocked → g.queue.contents ≠ [] ∨ g.stop.hasBroadcast = true →
      g.WakeupPending) ∧
    (g.pop = .returned [] → g.running = false) := by
  have hs := QueueThreads.synced_of_run h
  refine ⟨fun hpop hneed => hs.pending hpop (hneed.imp_left ?_), fun hpop => hs.zero (Or.inr hpop)⟩
  intro hfull hhead
  obtain ⟨l, hl⟩ := hs.rep
  exact hfull (hl.contents.trans (hl.head_eq_none.mp hhead))

/-- The writer waits, and a push has linked a sample in. -/
def linkedRun (s : Sample) : List QueueAction :=
  [.pop, .pop, .pop, .pop, .pop, .call 0 s, .push 0, .linked 0 0]

theorem no_lost_wakeup_linked :
    ∃ g, exec QueueThreads.step (.init 50 true)
        (linkedRun ⟨0, telemetryStateOf .empty 0 none⟩) = some g ∧
      g.pop = .blocked ∧ g.queue.contents ≠ [] ∧ g.WakeupPending := by
  refine ⟨_, rfl, rfl, ?_, (@no_lost_wakeup 50 true (linkedRun _) _ rfl).1 rfl (Or.inl ?_)⟩
  all_goals exact List.cons_ne_nil _ _

end TelemetryTestbed.Gateway

import Mathlib.Tactic.GCongr
import TelemetryTestbed.Gateway.StatsThread
import TelemetryTestbed.Laws.Gateway.Shutdown
import TelemetryTestbed.Laws.Gateway.Stats
import TelemetryTestbed.Laws.Gateway.StatsLine

/-!
# Every line of a run makes sense

Each step of the pipeline moves the counters forward, and adds to the time of the commits
no more than their number times the longest of them (`Since`). The relation is
transitive, so it holds between the rounds of `stats_thread` whatever happens between its
reads.

The relation is between the counters as they are and as they were, one lemma for each kind of
step of the pipeline; the reads of a round are then two such points, with the clock read
before both. That rows never outnumber messages comes from the flow of samples: each committed
row is a message received.
-/

namespace TelemetryTestbed.Gateway

open TelemetryTestbed.Lib TelemetryTestbed.Telemetry

/-! ## Counters that move forward -/

/-- The counters have not gone back, and no commit in between took longer than the longest. -/
structure StatsSnapshot.Since (last now : StatsSnapshot) : Prop where
  before : last.Before now
  commits : now.commitNsSum - last.commitNsSum ≤
    (now.commitCount - last.commitCount : Int) * now.commitNsMax

namespace StatsSnapshot.Since

variable {a b c : StatsSnapshot}

theorem refl (a : StatsSnapshot) : a.Since a where
  before := ⟨le_refl _, le_refl _, le_refl _, le_refl _, le_refl _, le_refl _, le_refl _⟩
  commits := by
    rw [Int.sub_self, Int.sub_self, Int.zero_mul]

theorem trans (hab : a.Since b) (hbc : b.Since c) : a.Since c where
  before := hab.before.trans hbc.before
  commits := by
    have hcount : (0 : Int) ≤ b.commitCount - a.commitCount := by
      have := hab.before.commitCount
      omega
    have hmax : (b.commitCount - a.commitCount : Int) * b.commitNsMax ≤
        (b.commitCount - a.commitCount : Int) * c.commitNsMax :=
      Int.mul_le_mul_of_nonneg_left hbc.before.commitNsMax hcount
    calc c.commitNsSum - a.commitNsSum
        = (b.commitNsSum - a.commitNsSum) + (c.commitNsSum - b.commitNsSum) := by ring
      _ ≤ (b.commitCount - a.commitCount : Int) * c.commitNsMax +
            (c.commitCount - b.commitCount : Int) * c.commitNsMax :=
          Int.add_le_add (hab.commits.trans hmax) hbc.commits
      _ = (c.commitCount - a.commitCount : Int) * c.commitNsMax := by ring

/-- The length of the queue is no counter. -/
theorem withQueue (h : a.Since b) (qLen qMax : Nat) : a.Since { b with qLen, qMax } where
  before := ⟨h.before.monoNs, h.before.rxMsgs, h.before.rxBytes, h.before.dbRows,
    h.before.commitCount, h.before.commitNsSum, h.before.commitNsMax⟩
  commits := h.commits

theorem ofWithQueue (h : a.Since b) (qLen qMax : Nat) :
    StatsSnapshot.Since { a with qLen, qMax } b where
  before := ⟨h.before.monoNs, h.before.rxMsgs, h.before.rxBytes, h.before.dbRows,
    h.before.commitCount, h.before.commitNsSum, h.before.commitNsMax⟩
  commits := h.commits

end StatsSnapshot.Since

namespace Monitored

variable {g g' : TelemetryGateway} {t t' : Int}

theorem since_of_eq (ht : t ≤ t') (hrx : g.rxMsgs ≤ g'.rxMsgs) (hbytes : g.rxBytes ≤ g'.rxBytes)
    (hrows : g'.writer.dbRows = g.writer.dbRows)
    (hcount : g'.writer.commitCount = g.writer.commitCount)
    (hsum : g'.writer.commitNsSum = g.writer.commitNsSum)
    (hmax : g'.writer.commitNsMax = g.writer.commitNsMax) :
    (readCounters g t).Since (readCounters g' t') where
  before := ⟨ht, hrx, hbytes, hrows.ge, hcount.ge, hsum.ge, hmax.ge⟩
  commits := by
    show g'.writer.commitNsSum - g.writer.commitNsSum ≤
      (g'.writer.commitCount - g.writer.commitCount : Int) * g'.writer.commitNsMax
    rw [hsum, hcount, Int.sub_self, Int.sub_self, Int.zero_mul]

/-- `on_message` counts what it has received. -/
theorem since_message {c : MessageChoice} (h : g.messageStep c = some g') :
    (readCounters g t).Since (readCounters g' t) := by
  have hwriter : g'.writer = g.writer := (messageStep_cases h).2.1.1
  have hrx : g.rxMsgs ≤ g'.rxMsgs ∧ g.rxBytes ≤ g'.rxBytes := by
    unfold TelemetryGateway.messageStep at h
    grind
  exact since_of_eq (le_refl t) hrx.1 hrx.2 (by rw [hwriter]) (by rw [hwriter]) (by rw [hwriter])
    (by rw [hwriter])

/-- `writer_thread` counts a batch when it is through, and nothing else. -/
theorem writerThreadStep_counters {c : WriterChoice} (h : g.writerThreadStep c = some g') :
    (g'.rxMsgs = g.rxMsgs ∧ g'.rxBytes = g.rxBytes) ∧
      ((g'.writer.dbRows = g.writer.dbRows ∧ g'.writer.commitCount = g.writer.commitCount ∧
          g'.writer.commitNsSum = g.writer.commitNsSum ∧
          g'.writer.commitNsMax = g.writer.commitNsMax) ∨
        ∃ maxn batch t0 t1, g.writerPc = .stats maxn batch t0 ∧
          g'.writer = g.writer.recordStats batch.length t0 t1) := by
  unfold TelemetryGateway.writerThreadStep at h
  grind [TelemetryGateway.popped, Writer.broadcastSample]

/-- A batch adds its time to the sum, and no more than the longest. -/
theorem since_recordStats {n : Nat} {t0 t1 : Int} (hrx : g'.rxMsgs = g.rxMsgs)
    (hbytes : g'.rxBytes = g.rxBytes) (hwriter : g'.writer = g.writer.recordStats n t0 t1) :
    (readCounters g t).Since (readCounters g' t) := by
  have hdt : ∃ dt, 0 ≤ dt ∧ g'.writer.commitNsSum = g.writer.commitNsSum + dt ∧
      g'.writer.commitNsMax = max g.writer.commitNsMax dt := by
    refine ⟨if t0 < t1 then t1 - t0 else 0, ?_, ?_, ?_⟩
    · split <;> omega
    · rw [hwriter]
      rfl
    · rw [hwriter, Writer.recordStats]
      dsimp only
      split <;> omega
  obtain ⟨dt, hdt, hsum, hmax⟩ := hdt
  have hcount : g'.writer.commitCount = g.writer.commitCount + 1 := by
    rw [hwriter]
    rfl
  have hrows : g'.writer.dbRows = g.writer.dbRows + n := by
    rw [hwriter]
    rfl
  constructor
  · refine ⟨le_refl t, hrx.ge, hbytes.ge, ?_, ?_, ?_, ?_⟩
    · show g.writer.dbRows ≤ g'.writer.dbRows
      omega
    · show g.writer.commitCount ≤ g'.writer.commitCount
      omega
    · show g.writer.commitNsSum ≤ g'.writer.commitNsSum
      omega
    · show g.writer.commitNsMax ≤ g'.writer.commitNsMax
      omega
  · show g'.writer.commitNsSum - g.writer.commitNsSum ≤
      (g'.writer.commitCount - g.writer.commitCount : Int) * g'.writer.commitNsMax
    have hone : (g'.writer.commitCount - g.writer.commitCount : Int) = 1 := by
      rw [hcount, Nat.cast_add]
      omega
    rw [hone, Int.one_mul]
    omega

theorem since_writer {c : WriterChoice} (h : g.writerThreadStep c = some g') :
    (readCounters g t).Since (readCounters g' t) := by
  obtain ⟨⟨hrx, hbytes⟩, ⟨hrows, hcount, hsum, hmax⟩ | ⟨_, batch, t0, t1, -, hwriter⟩⟩ :=
    writerThreadStep_counters h
  · exact since_of_eq (le_refl t) hrx.ge hbytes.ge hrows hcount hsum hmax
  · exact since_recordStats hrx hbytes hwriter

theorem since_stop (h : g.stopStep = some g') : (readCounters g t).Since (readCounters g' t) := by
  obtain ⟨-, rfl⟩ | ⟨-, rfl⟩ | ⟨-, -, rfl⟩ | ⟨-, -, rfl⟩ | ⟨-, rfl⟩ := stopStep_eq_some h <;>
    exact since_of_eq (le_refl t) (le_refl _) (le_refl _) rfl rfl rfl rfl

theorem since_step {a : GatewayAction} (h : g.step a = some g') :
    (readCounters g t).Since (readCounters g' t) := by
  cases a with
  | message c => exact since_message h
  | writer c => exact since_writer h
  | stop => exact since_stop h

/-! ## No row without a message -/

/-- The samples of the batch that are still to be counted. -/
def uncounted : WriterPc → Nat
  | .begin _ batch | .endTx _ batch _ _ | .stats _ batch _ => batch.length
  | .insert _ inserted rest _ _ => inserted.length + rest.length
  | _ => 0

/-- The message that is counted and not yet decoded. -/
def undecoded : MessagePc → Nat
  | .unpack _ | .copyRaw .. => 1
  | _ => 0

/-- A row that is counted was a message, and the message was counted before. -/
structure Accounted (g : TelemetryGateway) : Prop where
  rows : g.writer.dbRows + uncounted g.writerPc + g.queue.len + g.message.holds.length ≤
    g.received.length
  messages : g.received.length + undecoded g.message ≤ g.rxMsgs
  queue : g.queue.len ≤ g.queue.lenMax

theorem accounted_init (batchSize : Int) : Accounted (.init batchSize) :=
  ⟨le_refl _, le_refl _, le_refl _⟩

theorem uncounted_signal (pc : WriterPc) : uncounted pc.signal = uncounted pc := by
  cases pc <;> rfl

theorem Accounted.message {c : MessageChoice} (h : Accounted g) (hstep : g.messageStep c = some g') :
    Accounted g' := by
  obtain ⟨hrows, hmessages, hqueue⟩ := h
  unfold TelemetryGateway.messageStep at hstep
  constructor <;> grind [MessagePc.holds, undecoded, uncounted_signal, Queue.push]

/-- The queue counts what it holds. -/
theorem Queue.Rep.len_eq {queue : Queue} {l : List Sample} (h : queue.Rep l) :
    queue.len = l.length := by
  obtain ⟨cells, rfl, -, -, -, hlen⟩ := h
  rw [hlen, List.length_map]

theorem popBatch_lenMax (max : Nat) (queue : Queue) :
    (queue.popBatch max).2.lenMax = queue.lenMax := by
  induction max generalizing queue with
  | zero => rfl
  | succ max ih =>
    unfold Queue.popBatch
    split
    · rfl
    · split
      · rfl
      · exact ih _

/-- `queue_pop_batch` takes a batch, and it is still to be counted. -/
theorem Accounted.popped {q : List Sample} {maxn : Nat} (h : Accounted g) (hF : Flow g q)
    (hp : g.writerPc = .pop maxn) : Accounted (g.popped maxn) := by
  obtain ⟨hrows, hmessages, hqueue⟩ := h
  obtain ⟨htake, hdrop⟩ := hF.rep.popBatch maxn
  have hlen := Queue.Rep.len_eq hF.rep
  have hlen' : (g.popped maxn).queue.len = (q.drop maxn).length := Queue.Rep.len_eq hdrop
  have hbatch : uncounted (g.popped maxn).writerPc = (q.take maxn).length := by
    unfold TelemetryGateway.popped
    dsimp only
    rw [htake]
    split
    next hnil =>
      rw [hnil]
      rfl
    next => rfl
  have hsplit : (q.take maxn).length + (q.drop maxn).length = q.length := by
    rw [← List.length_append, List.take_append_drop]
  have hmax : (g.popped maxn).queue.lenMax = g.queue.lenMax := popBatch_lenMax maxn g.queue
  rw [hp] at hrows
  refine ⟨?_, hmessages, ?_⟩
  · rw [hlen', hbatch]
    show g.writer.dbRows + _ + _ + g.message.holds.length ≤ g.received.length
    simp only [uncounted] at hrows
    omega
  · rw [hlen', hmax]
    omega

theorem Accounted.writer {q : List Sample} {c : WriterChoice} (h : Accounted g) (hF : Flow g q)
    (hstep : g.writerThreadStep c = some g') : Accounted g' := by
  by_cases hpop : ∃ maxn, g.writerPc = .pop maxn
  · obtain ⟨maxn, hp⟩ := hpop
    unfold TelemetryGateway.writerThreadStep at hstep
    rw [hp] at hstep
    cases c with
    | go =>
      dsimp only at hstep
      split at hstep
      · cases hstep
        exact ⟨by simpa [hp, uncounted] using h.rows, h.messages, h.queue⟩
      · cases hstep
        exact h.popped hF hp
    | failed | spurious | began | inserted | committed | time => cases hstep
  · obtain ⟨hrows, hmessages, hqueue⟩ := h
    unfold TelemetryGateway.writerThreadStep at hstep
    constructor <;> grind [uncounted, Writer.recordStats, Writer.broadcastSample]

theorem Accounted.stop (h : Accounted g) (hstep : g.stopStep = some g') : Accounted g' := by
  obtain ⟨hrows, hmessages, hqueue⟩ := h
  obtain ⟨-, rfl⟩ | ⟨-, rfl⟩ | ⟨-, -, rfl⟩ | ⟨-, -, rfl⟩ | ⟨-, rfl⟩ := stopStep_eq_some hstep
  · exact ⟨hrows, hmessages, hqueue⟩
  · exact ⟨by rwa [uncounted_signal], hmessages, hqueue⟩
  · exact ⟨hrows, hmessages, hqueue⟩
  · exact ⟨hrows, hmessages, hqueue⟩
  · refine ⟨?_, hmessages, le_refl _⟩
    show g.writer.dbRows + uncounted g.writerPc + 0 + g.message.holds.length ≤ g.received.length
    omega

theorem Accounted.step {a : GatewayAction} {q : List Sample} (h : Accounted g) (hF : Flow g q)
    (hstep : g.step a = some g') : Accounted g' := by
  cases a with
  | message c => exact h.message hstep
  | writer c => exact h.writer hF hstep
  | stop => exact h.stop hstep

/-! ## Lines -/

/-- What a line says fits together: no counter has gone back since the last round, no more rows
are stored than messages came in, and the queue is no longer than its maximum. -/
structure Coherent (last now : StatsSnapshot) : Prop where
  since : last.Since now
  rows : now.dbRows ≤ now.rxMsgs
  queue : now.qLen ≤ now.qMax

/-- What `stats_thread` has read in this round, or is going to compare with. -/
def reading (m : Monitored) : StatsSnapshot :=
  match m.pc with
  | .queue read => read
  | _ => m.last

/-- The lines follow one another from the start to `last`. -/
def Chained (first last : StatsSnapshot) : List (StatsSnapshot × StatsSnapshot) → Prop
  | [] => first = last
  | (prev, now) :: lines => first = prev ∧ Chained now last lines

/-- The invariant of the gateway with its statistics: the readings lie between the last round
and now, and every line so far is coherent and begins where the one before it ended. -/
structure Sound (startMonoNs : Int) (m : Monitored) : Prop where
  flow : ∃ q, Flow m.gateway q
  accounted : Accounted m.gateway
  last : m.last.Since m.reading
  now : m.reading.Since (readCounters m.gateway m.clock)
  clock : ∀ nowNs, m.pc = .counters nowNs → m.last.monoNs ≤ nowNs ∧ nowNs ≤ m.clock
  rows : m.reading.dbRows ≤ m.reading.rxMsgs
  chained : Chained (.start startMonoNs) m.last m.lines
  lines : ∀ line ∈ m.lines, Coherent line.1 line.2

theorem Chained.concat {first last now : StatsSnapshot}
    {lines : List (StatsSnapshot × StatsSnapshot)} (h : Chained first last lines) :
    Chained first now (lines ++ [(last, now)]) := by
  induction lines generalizing first with
  | nil => exact ⟨h, rfl⟩
  | cons line lines ih => exact ⟨h.1, ih h.2⟩

/-- The clock of a round stands between those of the rounds around it. -/
theorem since_at {a : StatsSnapshot} (h : a.Since (readCounters g t)) (ht : a.monoNs ≤ t') :
    a.Since (readCounters g t') where
  before := ⟨ht, h.before.rxMsgs, h.before.rxBytes, h.before.dbRows, h.before.commitCount,
    h.before.commitNsSum, h.before.commitNsMax⟩
  commits := h.commits

variable {m m' : Monitored} {startMonoNs : Int}

theorem sound_init (batchSize startMonoNs : Int) : (init batchSize startMonoNs).Sound startMonoNs where
  flow := ⟨[], Flow.init batchSize⟩
  accounted := accounted_init batchSize
  last := .refl _
  now := .refl _
  clock := nofun
  rows := le_refl _
  chained := rfl
  lines := nofun

theorem Sound.gateway {g' : TelemetryGateway} {a : GatewayAction} (hI : m.Sound startMonoNs)
    (h : m.gateway.step a = some g') : Sound startMonoNs { m with gateway := g' } where
  flow := hI.flow.elim fun _ hF => hF.step h
  accounted := hI.flow.elim fun _ hF => hI.accounted.step hF h
  last := hI.last
  now := hI.now.trans (since_step h)
  clock := hI.clock
  rows := hI.rows
  chained := hI.chained
  lines := hI.lines

theorem Sound.tick (hI : m.Sound startMonoNs) (ns : Nat) :
    Sound startMonoNs { m with clock := m.clock + ns } where
  flow := hI.flow
  accounted := hI.accounted
  last := hI.last
  now := since_at hI.now (hI.now.before.monoNs.trans (Int.le_add_of_nonneg_right (Int.natCast_nonneg ns)))
  clock nowNs hpc := by
    obtain ⟨hlast, hclock⟩ := hI.clock nowNs hpc
    exact ⟨hlast, hclock.trans (Int.le_add_of_nonneg_right (Int.natCast_nonneg ns))⟩
  rows := hI.rows
  chained := hI.chained
  lines := hI.lines

theorem Sound.stats (hI : m.Sound startMonoNs) (h : m.statsStep = some m') :
    m'.Sound startMonoNs := by
  obtain ⟨hflow, haccounted, hlast, hnow, hclock, hrows, hchained, hlines⟩ := hI
  unfold statsStep at h
  unfold reading at hlast hnow hrows
  split at h
  next hpc =>
    simp only [hpc] at hlast hnow hrows
    cases h
    cases hrunning : m.gateway.running with
    | true =>
      refine ⟨hflow, haccounted, hlast, hnow, ?_, hrows, hchained, hlines⟩
      intro nowNs hnext
      cases hnext
      exact ⟨hnow.before.monoNs, le_refl _⟩
    | false => exact ⟨hflow, haccounted, hlast, hnow, nofun, hrows, hchained, hlines⟩
  next nowNs hpc =>
    simp only [hpc] at hlast hnow hrows
    obtain ⟨hafter, hbefore⟩ := hclock nowNs hpc
    cases h
    refine ⟨hflow, haccounted, since_at hnow hafter, ?_, nofun, ?_, hchained, hlines⟩
    · exact since_at (.refl (readCounters m.gateway nowNs)) hbefore
    · have hcounted := haccounted.rows
      have hreceived := haccounted.messages
      show m.gateway.writer.dbRows ≤ m.gateway.rxMsgs
      omega
  next read hpc =>
    simp only [hpc] at hlast hnow hrows
    cases h
    refine ⟨hflow, haccounted, .refl _, ?_, nofun, hrows, hchained.concat, ?_⟩
    · exact hnow.ofWithQueue _ _
    · intro line hline
      rcases List.mem_append.mp hline with hline | hline
      · exact hlines line hline
      · obtain rfl := List.mem_singleton.mp hline
        exact ⟨hlast.withQueue _ _, hrows, haccounted.queue⟩
  next => cases h

theorem Sound.step {a : MonitoredAction} (hI : m.Sound startMonoNs) (h : m.step a = some m') :
    m'.Sound startMonoNs := by
  cases a with
  | tick ns =>
    cases h
    exact hI.tick ns
  | stats => exact hI.stats h
  | gateway a =>
    have hmap : ∀ {a : GatewayAction},
        (m.gateway.step a).map (fun gateway => { m with gateway }) = some m' →
          m'.Sound startMonoNs := by
      intro a h
      obtain ⟨g', hg', rfl⟩ := Option.map_eq_some_iff.mp h
      exact hI.gateway hg'
    cases a with
    | message c => exact hmap h
    | writer c => exact hmap h
    | stop =>
      obtain ⟨-, h⟩ := Option.ite_none_left_eq_some.mp h
      exact hmap h

theorem sound_of_run {batchSize : Int} {as : List MonitoredAction}
    (h : exec Monitored.step (init batchSize startMonoNs) as = some m) : m.Sound startMonoNs :=
  exec_preserves (fun _ _ _ hI hstep => hI.step hstep) (sound_init batchSize startMonoNs) h

/-! ## What is printed -/

/-- A line is no earlier than the first counters. -/
theorem Chained.before {first last : StatsSnapshot}
    {lines : List (StatsSnapshot × StatsSnapshot)} (h : Chained first last lines)
    (hlines : ∀ line ∈ lines, Coherent line.1 line.2) :
    ∀ line ∈ lines, first.Before line.2 := by
  induction lines generalizing first with
  | nil => nofun
  | cons line lines ih =>
    obtain ⟨prev, now⟩ := line
    obtain ⟨rfl, hrest⟩ := h
    have hhead : first.Before now := (hlines (first, now) List.mem_cons_self).since.before
    intro line hline
    rcases List.mem_cons.mp hline with rfl | hline
    · exact hhead
    · exact hhead.trans
        (ih hrest (fun line hline => hlines line (List.mem_cons_of_mem _ hline)) line hline)

end Monitored

end TelemetryTestbed.Gateway

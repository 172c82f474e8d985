import Mathlib.Order.Bounds.Basic
import TelemetryTestbed.Gateway.Fifo

/-!
# The queue in every run

Under the mutex a section has the effect it would have alone, so the queue between two
sections is what the log makes of it (`fifoAfter`). A push appends its sample, a round of
`queue_pop_batch` takes the first one, and each leaves the ends and the counters as `Holds`
says. `queue_fifo` is the result for runs.

The proof has two levels. The library of critical sections gives that the interleaving of the
statements does not matter, so each call is taken as a whole (`atomic_holds`); within a call
the statements are followed one by one over the cells. The counters are natural numbers, and
that `q_len` stays above zero where it is decremented is part of what is proved.
-/

namespace TelemetryTestbed.Gateway

open TelemetryTestbed.Lib TelemetryTestbed.Telemetry

/-! ## The log -/

/-- What an entry does to the samples in the queue. -/
def QueueOp.apply (l : List Sample) : QueueOp → List Sample
  | .pushed s => l ++ [s]
  | .popped max _ => l.drop max
  | .failed _ | .waited => l

/-- The samples in the queue after what the log tells. -/
def fifoAfter (log : List QueueOp) : List Sample := log.foldl QueueOp.apply []

theorem fifoAfter_concat (log : List QueueOp) (op : QueueOp) :
    fifoAfter (log ++ [op]) = op.apply (fifoAfter log) := by
  rw [fifoAfter, List.foldl_append]
  rfl

/-- Every batch is the longest prefix of the queue that has at most `max` samples. -/
def BatchesInOrder (log : List QueueOp) : Prop :=
  ∀ before max out after, log = before ++ .popped max out :: after →
    out = (fifoAfter before).take max

theorem BatchesInOrder.concat {log : List QueueOp} {op : QueueOp} (h : BatchesInOrder log)
    (hop : ∀ max out, op = .popped max out → out = (fifoAfter log).take max) :
    BatchesInOrder (log ++ [op]) := by
  intro before max out after hlog
  rcases List.eq_nil_or_concat' after with rfl | ⟨after, last, rfl⟩
  · obtain ⟨rfl, hlast⟩ := List.append_inj' hlog rfl
    exact hop max out (List.cons.inj hlast).1
  · rw [← List.cons_append, ← List.append_assoc] at hlog
    exact h before max out after (List.append_inj' hlog rfl).1

/-! ## The sections -/

/-- The memory between two sections: the list is that of the samples `l`, `q_len` is the last
value noted, `q_max` the largest, and no pop has counted below zero. -/
structure FifoMem.Holds (m : FifoMem) (l : List Sample) : Prop where
  rep : m.queue.Rep l
  len : m.lens.getLast? = some m.queue.len
  lenMax : IsGreatest {n | n ∈ m.lens} m.queue.lenMax
  underflow : m.underflow = false

namespace FifoMem.Holds

variable {m : FifoMem} {l : List Sample}

theorem init : FifoMem.init.Holds [] where
  rep := Queue.rep_empty
  len := rfl
  lenMax := ⟨List.mem_cons_self, fun _ hn => (List.mem_singleton.mp hn).le⟩
  underflow := rfl

theorem atomic_push (m : FifoMem) (r : Addr) (s : Sample) :
    ((QueueCall.push r s).code.atomic m).1 =
      { m with queue := m.queue.push r s, lens := m.lens ++ [m.queue.len + 1] } := by
  have hmax : ∀ n k : Nat, (if n + 1 > k then n + 1 else k) = max k (n + 1) := by
    intro n k
    split <;> omega
  cases htail : m.queue.tail <;>
    simp only [QueueCall.code, CriticalSection.atomic, runStatements, queuePush, List.foldl_cons,
      List.foldl_nil, assign, FifoMem.setLen, Queue.push, htail, hmax]

theorem push {r : Addr} (h : m.Holds l) (hr : m.queue.nodes r = none) (s : Sample) :
    ((QueueCall.push r s).code.atomic m).1.Holds (l ++ [s]) := by
  rw [atomic_push]
  refine ⟨h.rep.push hr, List.getLast?_concat, ⟨?_, ?_⟩, h.underflow⟩
  · show max m.queue.lenMax (m.queue.len + 1) ∈ m.lens ++ [m.queue.len + 1]
    rcases Nat.le_total m.queue.lenMax (m.queue.len + 1) with hle | hle
    · rw [Nat.max_eq_right hle]
      exact List.mem_append_right _ List.mem_cons_self
    · rw [Nat.max_eq_left hle]
      exact List.mem_append_left _ h.lenMax.1
  · intro n hn
    rcases List.mem_append.mp hn with hn | hn
    · exact (h.lenMax.2 hn).trans (Nat.le_max_left _ _)
    · rw [List.mem_singleton.mp hn]
      exact Nat.le_max_right _ _

end FifoMem.Holds

/-- The first node of a queue that is not empty. -/
theorem Queue.Rep.first {q : Queue} {s : Sample} {l : List Sample} (h : q.Rep (s :: l)) :
    ∃ r next, q.head = some r ∧ q.nodes r = some ⟨s, next⟩ ∧ q.len = l.length + 1 := by
  obtain ⟨cells, hmap, hlinked, _, _, hlen⟩ := h
  cases cells with
  | nil => cases hmap
  | cons c cells =>
    obtain ⟨r, v⟩ := c
    obtain ⟨rfl, rfl⟩ := List.cons.inj hmap
    obtain ⟨hhead, next, hcell, _⟩ := hlinked
    refine ⟨r, next, hhead, hcell, ?_⟩
    rw [hlen, List.length_cons, List.length_map]

theorem Queue.Rep.ends {q : Queue} {l : List Sample} (h : q.Rep l) :
    q.head = none ↔ q.tail = none := by
  obtain ⟨cells, rfl, hlinked, _, htail, _⟩ := id h
  rw [h.head_eq_none, htail, List.map_eq_nil_iff, Option.map_eq_none_iff,
    List.getLast?_eq_none_iff]

variable {max : Nat} {x : FifoMem × FifoLocals} {l : List Sample}

/-- Where the condition of the loop fails a round does nothing. -/
theorem runStatements_popRound_stop
    (h : x.2.waits = true ∨ max ≤ x.2.n ∨ x.1.queue.head = none) :
    runStatements (popRound max) x = (x.1, { x.2 with q := none }) := by
  have hq : (if (!x.2.waits && decide (x.2.n < max)) = true then x.1.queue.head else none) =
      none := by
    rcases h with h | h | h
    · simp only [h, Bool.not_true, Bool.false_and, Bool.false_eq_true, if_false]
    · simp only [decide_eq_false (Nat.not_lt.mpr h), Bool.and_false, Bool.false_eq_true, if_false]
    · rw [h, ite_self]
  simp only [popRound, runStatements, List.foldl_cons, List.foldl_nil, hq, inRound]

/-- A round takes the first node off. -/
theorem runStatements_popRound_take {r : Addr} {node : QNode} (hwaits : x.2.waits = false)
    (hn : x.2.n < max) (hhead : x.1.queue.head = some r) (hnode : x.1.queue.nodes r = some node) :
    runStatements (popRound max) x =
      ({ queue := (Queue.popBatch 1 x.1.queue).2
         lens := x.1.lens ++ [x.1.queue.len - 1]
         underflow := x.1.underflow || x.1.queue.len = 0 },
        { waits := false, q := some r, n := x.2.n + 1, out := x.2.out ++ [node.val] }) := by
  simp only [popRound, runStatements, List.foldl_cons, List.foldl_nil, inRound, assign,
    FifoMem.setLen, Queue.popBatch, hwaits, hn, hhead, hnode, Bool.not_false, Bool.true_and,
    decide_true, if_true]

/-- A first node taken off. -/
theorem FifoMem.Holds.take {m : FifoMem} {s : Sample} (h : m.Holds (s :: l)) :
    FifoMem.Holds { queue := (Queue.popBatch 1 m.queue).2
                    lens := m.lens ++ [m.queue.len - 1]
                    underflow := m.underflow || m.queue.len = 0 } l := by
  obtain ⟨r, next, hhead, hnode, hlen⟩ := h.rep.first
  have hpop : (Queue.popBatch 1 m.queue).2.len = m.queue.len - 1 ∧
      (Queue.popBatch 1 m.queue).2.lenMax = m.queue.lenMax := by
    simp only [Queue.popBatch, hhead, hnode, and_self]
  refine ⟨(h.rep.popBatch 1).2, ?_, ⟨?_, ?_⟩, ?_⟩
  · rw [List.getLast?_concat, hpop.1]
  · show (Queue.popBatch 1 m.queue).2.lenMax ∈ m.lens ++ [m.queue.len - 1]
    rw [hpop.2]
    exact List.mem_append_left _ h.lenMax.1
  · intro n hn
    show n ≤ (Queue.popBatch 1 m.queue).2.lenMax
    rw [hpop.2]
    have hlast : m.queue.len ≤ m.queue.lenMax :=
      h.lenMax.2 (List.mem_of_getLast? h.len)
    rcases List.mem_append.mp hn with hn | hn
    · exact h.lenMax.2 hn
    · rw [List.mem_singleton.mp hn]
      exact (Nat.sub_le _ _).trans hlast
  · have hpos : m.queue.len ≠ 0 := by
      rw [hlen]
      exact Nat.succ_ne_zero _
    simp only [h.underflow, hpos, decide_false, Bool.or_self]

/-- The rounds of a call that waits. -/
theorem runStatements_rounds_wait (k : Nat) (hwaits : x.2.waits = true) :
    (runStatements (List.replicate k (popRound max)).flatten x).1 = x.1 ∧
      (runStatements (List.replicate k (popRound max)).flatten x).2.waits = true := by
  induction k generalizing x with
  | zero => exact ⟨rfl, hwaits⟩
  | succ k ih =>
    rw [List.replicate_succ, List.flatten_cons, runStatements_append,
      runStatements_popRound_stop (.inl hwaits)]
    exact ih hwaits

/-- Some rounds of a call that does not wait, at most as many as it has left. -/
theorem runStatements_rounds {k : Nat} (h : x.1.Holds l) (hwaits : x.2.waits = false)
    (hk : x.2.n + k ≤ max) :
    (runStatements (List.replicate k (popRound max)).flatten x).1.Holds (l.drop k) ∧
      (runStatements (List.replicate k (popRound max)).flatten x).2.waits = false ∧
      (runStatements (List.replicate k (popRound max)).flatten x).2.out =
        x.2.out ++ l.take k := by
  induction k generalizing x l with
  | zero =>
    refine ⟨h, hwaits, ?_⟩
    rw [List.take_zero, List.append_nil]
    rfl
  | succ k ih =>
    rw [List.replicate_succ, List.flatten_cons, runStatements_append]
    cases l with
    | nil =>
      have hhead : x.1.queue.head = none := h.rep.head_eq_none.mpr rfl
      rw [runStatements_popRound_stop (.inr (.inr hhead))]
      have hround : x.2.n + k ≤ max := by omega
      have hrest := ih (x := (x.1, { x.2 with q := none })) h hwaits hround
      rw [List.drop_nil, List.take_nil] at hrest ⊢
      exact hrest
    | cons s l =>
      obtain ⟨r, next, hhead, hnode, _⟩ := h.rep.first
      have hn : x.2.n < max := by omega
      rw [runStatements_popRound_take hwaits hn hhead hnode]
      have hround : x.2.n + 1 + k ≤ max := by omega
      obtain ⟨hholds, hwaits', hout⟩ :=
        ih (x := (_, ⟨false, some r, x.2.n + 1, x.2.out ++ [s]⟩)) h.take rfl hround
      refine ⟨hholds, hwaits', ?_⟩
      rw [hout, List.take_succ_cons, List.append_assoc]
      rfl

/-- What a call does alone. -/
theorem QueueCall.atomic_holds {m : FifoMem} {call : QueueCall} (h : m.Holds l)
    (hadmissible : call.admissible m = true) :
    (call.code.atomic m).1.Holds ((call.done (call.code.atomic m).2).apply l) ∧
      ∀ max out, call.done (call.code.atomic m).2 = .popped max out → out = l.take max := by
  cases call with
  | push r s =>
    exact ⟨h.push (Option.isNone_iff_eq_none.mp hadmissible) s, fun _ _ hout => by cases hout⟩
  | pop max running =>
    have hatomic : (QueueCall.pop max running).code.atomic m =
        runStatements (List.replicate max (popRound max)).flatten
          (m, { FifoLocals.init with waits := running && m.queue.head = none }) := rfl
    rw [hatomic]
    cases hwaits : running && decide (m.queue.head = none) with
    | true =>
      obtain ⟨hmem, hstill⟩ := @runStatements_rounds_wait max
        (m, { FifoLocals.init with waits := true }) max rfl
      rw [QueueCall.done, if_pos hstill, hmem]
      exact ⟨h, fun _ _ hout => by cases hout⟩
    | false =>
      obtain ⟨hholds, hstill, hout⟩ := runStatements_rounds
        (x := (m, { FifoLocals.init with waits := false })) h rfl (Nat.zero_add max).le
      rw [QueueCall.done, hstill, if_neg Bool.false_ne_true]
      refine ⟨hholds, ?_⟩
      rintro _ _ ⟨rfl, rfl⟩
      exact hout

theorem inRound_underflow_back {f : Addr → FifoStatement}
    (h : (inRound f x).1.underflow = false)
    (hf : ∀ r y, (f r y).1.underflow = false → y.1.underflow = false) : x.1.underflow = false := by
  unfold inRound at h
  split at h
  · exact hf _ x h
  · exact h

/-- No statement sets `underflow` back. -/
theorem QueueCall.underflow_back {call : QueueCall} {f : FifoStatement} (hf : f ∈ call.code.body)
    (h : (f x).1.underflow = false) : x.1.underflow = false := by
  cases call with
  | push r s =>
    simp only [QueueCall.code, queuePush, List.mem_cons, List.not_mem_nil, or_false] at hf
    rcases hf with rfl | rfl | rfl | rfl | rfl <;> exact h
  | pop max running =>
    simp only [QueueCall.code, queuePopBatch, List.mem_cons, List.mem_flatten,
      List.mem_replicate] at hf
    rcases hf with rfl | ⟨_, ⟨-, rfl⟩, hf⟩
    · exact h
    · simp only [popRound, List.mem_cons, List.not_mem_nil, or_false] at hf
      rcases hf with rfl | rfl | rfl | rfl | rfl | rfl
      · exact h
      · exact inRound_underflow_back h fun _ _ h => h
      · exact inRound_underflow_back h fun _ _ h => h
      · exact inRound_underflow_back h fun _ _ h => (Bool.or_eq_false_iff.mp h).1
      · refine inRound_underflow_back h fun r y h => ?_
        cases hnode : y.1.queue.nodes r <;> simp only [hnode] at h <;> exact h
      · exact inRound_underflow_back h fun _ _ h => h

/-! ## The runs -/

variable {ι : Type}

/-- What holds between any two steps; `m` is the memory as the finished sections have left
it. -/
structure Fifo.Invariant (s : Fifo ι) (m : FifoMem) : Prop where
  represents : Represents QueueCall.code s.lock m
  holds : m.Holds (fifoAfter s.log)
  batches : BatchesInOrder s.log
  admissible : ∀ i x, s.lock.inside i = some x → x.call.admissible m = true

/-- A push without a node is an entry in the log. -/
theorem Fifo.eq_of_allocFailed [DecidableEq ι] {s s' : Fifo ι} {i : ι} {sample : Sample}
    (h : s.step (.allocFailed i sample) = some s') :
    s' = { s with log := s.log ++ [.failed sample] } := by
  simp only [Fifo.step] at h
  split at h
  · exact (Option.some.inj h).symm
  · cases h

namespace Fifo.Invariant

variable {s s' : Fifo ι} {m : FifoMem}

theorem init : (Fifo.init : Fifo ι).Invariant .init where
  represents := represents_init FifoMem.init
  holds := .init
  batches before max out after hlog := by cases before <;> cases hlog
  admissible i x h := by cases h

/-- Also in the middle of a section. -/
theorem underflow (h : s.Invariant m) : s.lock.mem.underflow = false := by
  refine h.represents.during (P := fun m => m.underflow = false) h.holds.underflow ?_ ?_
  · exact fun call f hf x hx => call.underflow_back hf hx
  · exact fun i x hx => (x.call.atomic_holds h.holds (h.admissible i x hx)).1.underflow

theorem allocFailed (h : s.Invariant m) (sample : Sample) :
    Fifo.Invariant { s with log := s.log ++ [.failed sample] } m where
  represents := h.represents
  holds := by
    rw [fifoAfter_concat]
    exact h.holds
  batches := h.batches.concat fun _ _ hop => by cases hop
  admissible := h.admissible

variable [DecidableEq ι]

theorem step {a : FifoAction ι} (h : s.Invariant m) (hstep : s.step a = some s') :
    ∃ m', s'.Invariant m' := by
  cases a with
  | allocFailed i sample =>
    rw [Fifo.eq_of_allocFailed hstep]
    exact ⟨m, h.allocFailed sample⟩
  | lock i call =>
    simp only [Fifo.step] at hstep
    split at hstep
    · next hadmissible =>
      obtain ⟨lock, hlock, rfl⟩ := Option.map_eq_some_iff.mp hstep
      have hmem := (h.represents.of_owner_eq_none (Locked.enter_owner hlock)).2
      refine ⟨m, h.represents.enter hlock, h.holds, h.batches, ?_⟩
      intro t x hx
      rcases Locked.enter_inside hlock hx with ⟨-, rfl⟩ | hx
      · exact hmem ▸ hadmissible
      · exact h.admissible t x hx
    · cases hstep
  | statement i =>
    obtain ⟨lock, hlock, rfl⟩ := Option.map_eq_some_iff.mp hstep
    refine ⟨m, h.represents.statement hlock, h.holds, h.batches, ?_⟩
    intro t x hx
    obtain ⟨y, hy, hcall⟩ := Locked.statement_inside hlock hx
    rw [← hcall]
    exact h.admissible t y hy
  | unlock i =>
    obtain ⟨⟨lock, call, x⟩, hlock, rfl⟩ := Option.map_eq_some_iff.mp hstep
    obtain ⟨⟨rest, hinside⟩, hlocals, hleft⟩ := h.represents.leave hlock
    obtain ⟨hholds, hout⟩ := call.atomic_holds h.holds (h.admissible i _ hinside)
    rw [hlocals] at hholds hout
    refine ⟨_, hleft, ?_, h.batches.concat hout, ?_⟩
    · rw [fifoAfter_concat]
      exact hholds
    · intro t y hy
      rw [(hleft.of_owner_eq_none (Locked.leave_owner hlock)).1 t] at hy
      cases hy

end Fifo.Invariant

/-- The queue while the lock is free: both ends are NULL or neither is, the list is the one that
the log leaves, and the two lengths are right. -/
structure Fifo.Intact (s : Fifo ι) : Prop where
  ends : s.lock.mem.queue.head = none ↔ s.lock.mem.queue.tail = none
  rep : s.lock.mem.queue.Rep (fifoAfter s.log)
  len : s.lock.mem.lens.getLast? = some s.lock.mem.queue.len
  lenMax : IsGreatest {n | n ∈ s.lock.mem.lens} s.lock.mem.queue.lenMax

theorem Fifo.Invariant.intact {s : Fifo ι} {m : FifoMem} (h : s.Invariant m)
    (hfree : s.lock.owner = none) : s.Intact := by
  obtain ⟨-, rfl⟩ := h.represents.of_owner_eq_none hfree
  exact ⟨h.holds.rep.ends, h.holds.rep, h.holds.len, h.holds.lenMax⟩

/-- **The queue is a queue.** Any number of threads call `queue_push` and `queue_pop_batch` in
any order, one statement at a time, and a push may find no memory at any moment. In every state
that can be reached: whenever the lock is free, the queue holds the samples that the log of the
calls leaves in it, in order, with `head` and `tail` NULL together, `q_len` their number and
`q_len_max` the greatest value `q_len` has had; `q_len` was never decremented at zero; every
batch was the longest prefix of the queue of at most `max` samples, taken off its front; and a
push that gets no node changes nothing. -/
theorem queue_fifo [DecidableEq ι] {actions : List (FifoAction ι)} {s : Fifo ι}
    (h : exec Fifo.step Fifo.init actions = some s) :
    (s.lock.owner = none → s.Intact) ∧ s.lock.mem.underflow = false ∧ BatchesInOrder s.log ∧
      ∀ i sample s', s.step (.allocFailed i sample) = some s' →
        s'.lock = s.lock ∧ fifoAfter s'.log = fifoAfter s.log := by
  have hrun : ∃ m, s.Invariant m :=
    exec_preserves (I := fun s : Fifo ι => ∃ m, s.Invariant m)
      (fun _ _ _ hm hstep => hm.elim fun _ hm => hm.step hstep) ⟨_, .init⟩ h
  obtain ⟨m, hinv⟩ := hrun
  refine ⟨hinv.intact, hinv.underflow, hinv.batches, ?_⟩
  intro i sample s' hstep
  rw [Fifo.eq_of_allocFailed hstep]
  exact ⟨rfl, fifoAfter_concat s.log (.failed sample)⟩

/-- The sample of an empty message. -/
def emptySample (serial : Nat) : Sample := ⟨serial, telemetryStateOf .empty 0 none⟩

/-- Two pushes, of which the second is interrupted by another thread that gets no node, then
a batch that takes both samples, and a push at the address of the first. -/
def pushPopRun : List (FifoAction Bool) :=
  .lock false (.push 0 (emptySample 0)) :: List.replicate 5 (.statement false) ++
    [.unlock false, .lock false (.push 1 (emptySample 1)), .statement false,
      .allocFailed true (emptySample 2)] ++
    List.replicate 4 (.statement false) ++ [.unlock false, .lock true (.pop 2 true)] ++
    List.replicate 13 (.statement true) ++
    [.unlock true, .lock false (.push 0 (emptySample 3))] ++
    List.replicate 5 (.statement false) ++ [.unlock false]

theorem queue_fifo_pushPop : ∃ s : Fifo Bool,
    exec Fifo.step Fifo.init pushPopRun = some s ∧
      s.log = [.pushed (emptySample 0), .failed (emptySample 2), .pushed (emptySample 1),
        .popped 2 [emptySample 0, emptySample 1], .pushed (emptySample 3)] ∧
      s.lock.mem.lens = [0, 1, 2, 1, 0, 1] ∧ s.lock.mem.queue.lenMax = 2 ∧
      s.Intact ∧ BatchesInOrder s.log := by
  have hrun := @queue_fifo Bool _ pushPopRun _ rfl
  exact ⟨_, rfl, rfl, rfl, rfl, hrun.1 rfl, hrun.2.2.1⟩

end TelemetryTestbed.Gateway

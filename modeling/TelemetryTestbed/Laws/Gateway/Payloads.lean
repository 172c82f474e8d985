import TelemetryTestbed.Gateway.Payloads
import TelemetryTestbed.Laws.Gateway.Shutdown

/-!
# Every copy is released, and once

The samples that stand somewhere between `on_message` and the broadcast are the
holders of what is on the heap (`Held`). A step passes them on, adds one, or
drops some and releases theirs, so in no run is a copy released twice, read after its
release or mistaken for another's, and none is left when the gateway has stopped.

The invariant is the balance of the heap: the blocks that are there and the samples in hand
with a pointer are the same, as a permutation. A sample in hand is in the message thread, in
the queue, in the batch, or among those whose broadcast is still to come, and each step moves
it between two of these.
-/

namespace TelemetryTestbed.Gateway

open TelemetryTestbed.Lib TelemetryTestbed.Telemetry

/-- The samples that somebody still has in hand. -/
def TelemetryGateway.live (g : TelemetryGateway) : List Sample :=
  g.writerPc.toBroadcast ++ (g.queue.contents ++ g.message.holds)

namespace Payloads

/-- The copy of a sample: its address, and what must be there. -/
def block (m : Payloads) (s : Sample) : Option (Addr × Bytes) :=
  (m.raw s.serial).bind fun r => s.state.raw.map fun payload => (r, payload)

/-- These samples hold the heap: their numbers are distinct, each has an address if and only if
it has a payload, and the copies on the heap are theirs alone. -/
structure Held (m : Payloads) (live : List Sample) : Prop where
  serials : (live.map Sample.serial).Nodup
  copied : ∀ s ∈ live, (m.raw s.serial).isSome = s.state.raw.isSome
  accounts : Accounts m.copies (live.filterMap m.block)
  sound : m.fault = false

variable {m m' : Payloads} {s : Sample} {live rest : List Sample} {r : Addr}

theorem block_eq_none (h : m.raw s.serial = none) : m.block s = none := by
  rw [block, h]
  rfl

theorem block_eq_some {payload : Bytes} (h : m.raw s.serial = some r)
    (hraw : s.state.raw = some payload) : m.block s = some (r, payload) := by
  rw [block, h, hraw]
  rfl

namespace Held

theorem perm (h : m.Held live) (hperm : live.Perm rest) : m.Held rest where
  serials := ((hperm.map Sample.serial).nodup_iff).mp h.serials
  copied s hs := h.copied s (hperm.mem_iff.mpr hs)
  accounts := h.accounts.perm (hperm.filterMap m.block)
  sound := h.sound

/-! ## What the functions of the source do to the heap -/

/-- A sample is dropped, and its copy with it. -/
theorem release (h : m.Held (s :: live)) : (m.release s).Held live := by
  have hserials := (List.nodup_cons.mp h.serials).2
  have hcopied : ∀ s ∈ live, (m.raw s.serial).isSome = s.state.raw.isSome :=
    fun s hs => h.copied s (List.mem_cons_of_mem _ hs)
  have hmine := h.copied s List.mem_cons_self
  have haccounts := h.accounts
  unfold Payloads.release
  cases hraw : m.raw s.serial with
  | none =>
    rw [List.filterMap_cons_none (block_eq_none hraw)] at haccounts
    exact ⟨hserials, hcopied, haccounts, h.sound⟩
  | some r =>
    rw [hraw, Option.isSome_some] at hmine
    obtain ⟨payload, hpayload⟩ := Option.isSome_iff_exists.mp hmine.symm
    rw [List.filterMap_cons_some (block_eq_some hraw hpayload)] at haccounts
    have hthere : m.copies r = some payload := (haccounts.block r payload).mpr List.mem_cons_self
    refine ⟨hserials, hcopied, haccounts.free, ?_⟩
    show (m.fault || (m.copies r).isNone) = false
    rw [h.sound, hthere]
    rfl

/-- Samples are dropped one after another. -/
theorem releaseAll {batch : List Sample} (h : m.Held (batch ++ live)) :
    (batch.foldl Payloads.release m).Held live := by
  induction batch generalizing m with
  | nil => exact h
  | cons s batch ih => exact ih h.release

/-- The `INSERT` finds the payload of its sample. -/
theorem readRaw (h : m.Held live) (hs : s ∈ live) : (m.readRaw s).Held live := by
  refine ⟨h.serials, h.copied, h.accounts, ?_⟩
  have hmine := h.copied s hs
  have hfound : (m.raw s.serial).bind m.copies = s.state.raw := by
    cases hraw : m.raw s.serial with
    | none =>
      have hnone : s.state.raw = none := by simpa [hraw] using hmine.symm
      rw [Option.bind_none, hnone]
    | some r =>
      rw [hraw, Option.isSome_some] at hmine
      obtain ⟨payload, hpayload⟩ := Option.isSome_iff_exists.mp hmine.symm
      rw [Option.bind_some, hpayload]
      exact (h.accounts.block r payload).mpr
        (List.mem_filterMap.mpr ⟨s, hs, block_eq_some hraw hpayload⟩)
  show (m.fault || _) = false
  rw [h.sound, hfound]
  simp

/-- A sample comes in, and the pointers of the others stay as they are. -/
theorem add (h : m.Held live) (hnew : s.serial ∉ live.map Sample.serial)
    (hraw : ∀ s' ∈ live, m'.raw s'.serial = m.raw s'.serial)
    (hcopied : (m'.raw s.serial).isSome = s.state.raw.isSome)
    (haccounts : Accounts m'.copies ((m'.block s).toList ++ live.filterMap m.block))
    (hsound : m'.fault = m.fault) : m'.Held (s :: live) := by
  have hblocks : live.filterMap m'.block = live.filterMap m.block :=
    List.filterMap_congr fun s' hs' => by rw [block, hraw s' hs', block]
  refine ⟨List.nodup_cons.mpr ⟨hnew, h.serials⟩, ?_, ?_, hsound.trans h.sound⟩
  · intro s' hs'
    rcases List.mem_cons.mp hs' with rfl | hs'
    · exact hcopied
    · rw [hraw s' hs']
      exact h.copied s' hs'
  · rw [← hblocks] at haccounts
    rw [List.filterMap_cons]
    cases hb : m'.block s with
    | none =>
      rw [hb] at haccounts
      exact haccounts
    | some b =>
      rw [hb] at haccounts
      exact haccounts

theorem raw_update {p : Option Addr} {serial : Nat} (hnew : serial ∉ live.map Sample.serial) :
    ∀ s ∈ live, Function.update m.raw serial p s.serial = m.raw s.serial := by
  intro s hs
  refine Function.update_of_ne ?_ _ _
  rintro rfl
  exact hnew (List.mem_map_of_mem hs)

/-- A sample comes in without a copy. -/
theorem setRaw (h : m.Held live) (hnew : s.serial ∉ live.map Sample.serial)
    (hraw : s.state.raw = none) : (m.setRaw s.serial none).Held (s :: live) := by
  have hmine : (m.setRaw s.serial none).raw s.serial = none := Function.update_self _ _ _
  refine h.add hnew (raw_update hnew) ?_ ?_ rfl
  · rw [hmine, hraw]
    rfl
  · rw [block_eq_none hmine]
    exact h.accounts

/-- A sample comes in with a copy of its payload. -/
theorem copyRaw {payload : Bytes} (h : m.Held live) (hnew : s.serial ∉ live.map Sample.serial)
    (hraw : s.state.raw = some payload) (hr : m.copies r = none) :
    (m.copyRaw s.serial payload r).Held (s :: live) := by
  have hmine : (m.copyRaw s.serial payload r).raw s.serial = some r := Function.update_self _ _ _
  refine h.add hnew (raw_update hnew) ?_ ?_ rfl
  · rw [hmine, hraw]
    rfl
  · rw [block_eq_some hmine hraw]
    exact h.accounts.alloc hr payload

end Held

/-! ## What a step does to the heap -/

/-- What one step does to the heap and to the samples in hand: nothing, a read of a copy, a
sample more, or the release of a batch. -/
inductive Moves (m : Payloads) (live : List Sample) : Payloads → List Sample → Prop
  | stay : Moves m live m live
  | read (s : Sample) (hs : s ∈ live) : Moves m live (m.readRaw s) live
  /-- A sample without a copy. -/
  | bare (serial : Nat) (state : TelemetryState) (hnew : serial ∉ live.map Sample.serial)
    (hraw : state.raw = none) : Moves m live (m.setRaw serial none) (live ++ [⟨serial, state⟩])
  | copied (serial : Nat) (state : TelemetryState) (payload : Bytes) (r : Addr)
    (hnew : serial ∉ live.map Sample.serial) (hraw : state.raw = some payload)
    (hr : m.copies r = none) :
    Moves m live (m.copyRaw serial payload r) (live ++ [⟨serial, state⟩])
  | dropped (batch rest : List Sample) (hperm : live.Perm (batch ++ rest)) :
    Moves m live (batch.foldl Payloads.release m) rest

theorem Held.moves (h : m.Held live) (hmoves : Moves m live m' rest) : m'.Held rest := by
  cases hmoves with
  | stay => exact h
  | read s hs => exact h.readRaw hs
  | bare serial state hnew hraw =>
    have hnext := h.setRaw (s := ⟨serial, state⟩) hnew hraw
    exact hnext.perm (List.perm_append_singleton _ live).symm
  | copied serial state payload r hnew hraw hr =>
    have hnext := h.copyRaw (s := ⟨serial, state⟩) hnew hraw hr
    exact hnext.perm (List.perm_append_singleton _ live).symm
  | dropped batch rest hperm => exact (h.perm hperm).releaseAll

variable {q : List Sample} {g' : TelemetryGateway}

theorem live_eq {g : TelemetryGateway} (hF : Flow g q) :
    g.live = g.writerPc.toBroadcast ++ (q ++ g.message.holds) := by
  rw [TelemetryGateway.live, hF.rep.contents]

theorem live_congr {g : TelemetryGateway} (hqueue : g'.queue = g.queue)
    (hmessage : g'.message = g.message)
    (hbatch : g'.writerPc.toBroadcast = g.writerPc.toBroadcast) : g'.live = g.live := by
  rw [TelemetryGateway.live, hqueue, hmessage, hbatch, TelemetryGateway.live]

/-- A number that has not been given is not that of a sample in hand. -/
theorem fresh_serial {g : TelemetryGateway} (hF : Flow g q) :
    g.received.length ∉ g.live.map Sample.serial := by
  intro hmem
  rw [live_eq hF] at hmem
  have hsub := ((List.sublist_append_right _ _).trans hF.shown).map Sample.serial
  have hrange := hsub.subset hmem
  rw [hF.serials, List.mem_range] at hrange
  exact Nat.lt_irrefl _ hrange

/-- `on_message` has built a sample. -/
theorem live_received {g : TelemetryGateway} {s : Sample} {received : List Sample}
    (hholds : g.message.holds = []) :
    TelemetryGateway.live { g with message := .alloc s, received } = g.live ++ [s] := by
  simp only [TelemetryGateway.live, hholds, List.append_nil, List.append_assoc]
  rfl

/-- `queue_push` links a sample in. -/
theorem live_link {g : TelemetryGateway} {s : Sample} {enqueued : List Sample}
    (hF : Flow g q) (hm : g.message = .link r s) :
    TelemetryGateway.live { g with
        message := .idle, queue := g.queue.push r s, writerPc := g.writerPc.signal, enqueued } =
      g.live := by
  have hpush := (hF.rep.push (hF.fresh r s hm) (s := s)).contents
  rw [live_eq hF, hm, TelemetryGateway.live, hpush, WriterPc.toBroadcast_signal]
  simp only [MessagePc.holds, List.append_nil]

theorem message_moves {c : MessageChoice} (hF : Flow m.gateway q)
    (hstep : m.gateway.messageStep c = some g') (heff : m.messageEffect c r = some m') :
    Moves m m.gateway.live m' g'.live := by
  have hstay : m' = m → g'.live = m.gateway.live → Moves m m.gateway.live m' g'.live := by
    rintro rfl hlive
    rw [hlive]
    exact .stay
  have hfresh := fresh_serial hF
  unfold TelemetryGateway.messageStep at hstep
  split at hstep
  next topic payload hm =>
    split at hstep
    next => cases hstep
    next =>
      cases hstep
      refine hstay (by simpa [messageEffect, hm] using heff.symm) ?_
      simp only [TelemetryGateway.live, hm]
      split <;> rfl
  next payload hm =>
    cases hstep
    refine hstay (by simpa [messageEffect, hm] using heff.symm) ?_
    simp only [TelemetryGateway.live, hm, MessagePc.holds]
  next payload hm =>
    cases hstep
    refine hstay (by simpa [messageEffect, hm] using heff.symm) ?_
    simp only [TelemetryGateway.live, hm, MessagePc.holds]
  next payload st now hm =>
    cases hstep
    refine hstay (by simpa [messageEffect, hm] using heff.symm) ?_
    simp only [TelemetryGateway.live, hm, MessagePc.holds]
  next serial st now payload hm =>
    obtain rfl := hF.serial _ _ _ _ hm
    cases hstep
    rw [live_received (by rw [hm]; rfl)]
    simp only [messageEffect, hm] at heff
    split at heff
    next hempty =>
      cases heff
      exact .bare _ _ hfresh (if_pos hempty)
    next hfull =>
      split at heff
      next hr =>
        cases heff
        exact .copied _ _ payload r hfresh (if_neg hfull) hr
      next => cases heff
  next serial st now payload hm =>
    obtain rfl := hF.serial _ _ _ _ hm
    cases hstep
    rw [live_received (by rw [hm]; rfl)]
    simp only [messageEffect, hm] at heff
    cases heff
    exact .bare _ _ hfresh rfl
  next s hm =>
    cases hstep
    simp only [messageEffect, hm] at heff
    cases heff
    refine .dropped [s] _ ?_
    simp only [TelemetryGateway.live, hm, MessagePc.holds, List.append_nil, ← List.append_assoc]
    exact List.perm_append_comm
  next s r' hm =>
    split at hstep
    next =>
      cases hstep
      refine hstay (by simpa [messageEffect, hm] using heff.symm) ?_
      simp only [TelemetryGateway.live, hm, MessagePc.holds]
    next => cases hstep
  next r' s hm =>
    cases hstep
    exact hstay (by simpa [messageEffect, hm] using heff.symm) (live_link hF hm)
  next => cases hstep

/-- `queue_pop_batch` passes samples from the queue to the batch. -/
theorem live_popped {g : TelemetryGateway} {maxn : Nat} (hF : Flow g q)
    (hp : g.writerPc = .pop maxn) : (g.popped maxn).live = g.live := by
  obtain ⟨htake, hdrop⟩ := hF.rep.popBatch maxn
  have hbatch : (g.popped maxn).writerPc.toBroadcast = q.take maxn := by
    unfold TelemetryGateway.popped
    dsimp only
    rw [htake]
    split
    next e => exact e.symm
    next => rfl
  have hqueue : (g.popped maxn).queue.contents = q.drop maxn := hdrop.contents
  rw [live_eq hF, hp, TelemetryGateway.live, hbatch, hqueue, ← List.append_assoc,
    List.take_append_drop]
  rfl

theorem writer_moves {c : WriterChoice} (hF : Flow m.gateway q)
    (hstep : m.gateway.writerThreadStep c = some g') :
    Moves m m.gateway.live (m.writerEffect c) g'.live := by
  have hstay : m.writerEffect c = m → g'.live = m.gateway.live →
      Moves m m.gateway.live (m.writerEffect c) g'.live := by
    intro heff hlive
    rw [heff, hlive]
    exact .stay
  unfold TelemetryGateway.writerThreadStep at hstep
  split at hstep
  next hp =>
    cases hstep
    exact hstay (by simp only [writerEffect, hp]) (live_congr rfl rfl (by rw [hp]; rfl))
  next hp =>
    cases hstep
    exact hstay (by simp only [writerEffect, hp]) (live_congr rfl rfl (by rw [hp]; rfl))
  next maxn hp =>
    cases hstep
    refine hstay (by simp only [writerEffect, hp]) ?_
    simp only [TelemetryGateway.live, hp]
    cases m.gateway.running <;> rfl
  next maxn hp =>
    split at hstep
    · cases hstep
      exact hstay (by simp only [writerEffect, hp]) (live_congr rfl rfl (by rw [hp]; rfl))
    · cases hstep
      exact hstay (by simp only [writerEffect, hp]) (live_popped hF hp)
  next maxn woken hp =>
    split at hstep
    · cases hstep
      exact hstay (by simp only [writerEffect, hp]) (live_congr rfl rfl (by rw [hp]; rfl))
    · cases hstep
  next maxn woken hp =>
    cases hstep
    exact hstay (by simp only [writerEffect, hp]) (live_congr rfl rfl (by rw [hp]; rfl))
  next maxn batch t0 hp =>
    split at hstep
    next =>
      cases hstep
      exact hstay (by simp only [writerEffect, hp]) (live_congr rfl rfl (by rw [hp]; rfl))
    next => cases hstep
  next maxn batch hp =>
    cases hstep
    simp only [writerEffect, hp]
    refine .dropped batch _ ?_
    simp only [TelemetryGateway.live, hp]
    exact List.Perm.refl _
  next maxn ins s rest t0 ok answer hp =>
    have hs : s ∈ m.gateway.live := by simp [TelemetryGateway.live, hp, WriterPc.toBroadcast]
    have hlive : g'.live = m.gateway.live := by
      cases hstep
      refine live_congr rfl rfl ?_
      show ins ++ [s] ++ rest = _
      rw [hp, List.append_assoc]
      rfl
    simp only [writerEffect, hp]
    rw [hlive]
    exact .read s hs
  next maxn ins t0 ok hp =>
    cases hstep
    refine hstay (by simp only [writerEffect, hp]) ?_
    simp only [TelemetryGateway.live, hp, WriterPc.toBroadcast, List.append_nil]
  next maxn batch t0 ok answer hp =>
    cases hstep
    exact hstay (by simp only [writerEffect, hp]) (live_congr rfl rfl (by rw [hp]; rfl))
  next maxn batch t0 t1 hp =>
    cases hstep
    exact hstay (by simp only [writerEffect, hp]) (live_congr rfl rfl (by rw [hp]; rfl))
  next maxn s rest hp =>
    cases hstep
    simp only [writerEffect, hp]
    refine .dropped [s] _ ?_
    simp only [TelemetryGateway.live, hp]
    exact List.Perm.refl _
  next maxn s rest hp =>
    cases hstep
    simp only [writerEffect, hp]
    refine .dropped [s] _ ?_
    simp only [TelemetryGateway.live, hp]
    exact List.Perm.refl _
  next maxn hp =>
    cases hstep
    exact hstay (by simp only [writerEffect, hp]) (live_congr rfl rfl (by rw [hp]; rfl))
  next => cases hstep

theorem stop_moves (hstep : m.gateway.stopStep = some g') :
    Moves m m.gateway.live m.stopEffect g'.live := by
  have hstay : m.stopEffect = m → g'.live = m.gateway.live →
      Moves m m.gateway.live m.stopEffect g'.live := by
    intro heff hlive
    rw [heff, hlive]
    exact .stay
  obtain ⟨hs, rfl⟩ | ⟨hs, rfl⟩ | ⟨hs, -, rfl⟩ | ⟨hs, -, rfl⟩ | ⟨hs, rfl⟩ := stopStep_eq_some hstep
  · exact hstay (by simp only [stopEffect, hs]) rfl
  · refine hstay (by simp only [stopEffect, hs]) ?_
    simp only [TelemetryGateway.live, WriterPc.toBroadcast_signal]
  · exact hstay (by simp only [stopEffect, hs]) rfl
  · exact hstay (by simp only [stopEffect, hs]) rfl
  · simp only [stopEffect, hs]
    refine .dropped _ _ ?_
    rw [TelemetryGateway.live, TelemetryGateway.live, Queue.rep_empty.contents, List.nil_append,
      ← List.append_assoc, ← List.append_assoc]
    exact List.perm_append_comm.append_right _

theorem effect_moves {a : GatewayAction} (hF : Flow m.gateway q)
    (hstep : m.gateway.step a = some g') (heff : m.effect a r = some m') :
    Moves m m.gateway.live m' g'.live := by
  cases a with
  | message c => exact message_moves hF hstep heff
  | writer c =>
    cases heff
    exact writer_moves hF hstep
  | stop =>
    cases heff
    exact stop_moves hstep

/-- A step of the pipeline, and what it does to the heap. -/
theorem step_cases {a : GatewayAction × Addr} (h : m.step a = some m') :
    ∃ n, m.gateway.step a.1 = some m'.gateway ∧ m.effect a.1 a.2 = some n ∧
      m' = { n with gateway := m'.gateway } := by
  obtain ⟨g', hg', heff⟩ := Option.bind_eq_some_iff.mp h
  obtain ⟨n, hn, rfl⟩ := Option.map_eq_some_iff.mp heff
  exact ⟨n, hg', hn, rfl⟩

/-! ## Runs -/

/-- The heap is held by the samples in hand, beside the two invariants of the pipeline that say
which those are. -/
structure Sound (m : Payloads) : Prop where
  flow : ∃ q, Flow m.gateway q
  stopping : Stopping m.gateway
  held : m.Held m.gateway.live

theorem sound_init (batchSize : Int) : (init batchSize).Sound where
  flow := ⟨[], Flow.init batchSize⟩
  stopping := Stopping.init batchSize
  held := ⟨List.nodup_nil, fun _ hs => absurd hs List.not_mem_nil, .empty, rfl⟩

theorem Sound.step {a : GatewayAction × Addr} (hI : m.Sound) (h : m.step a = some m') :
    m'.Sound := by
  obtain ⟨n, hstep, heff, hm'⟩ := step_cases h
  obtain ⟨q, hF⟩ := hI.flow
  have hheld : n.Held m'.gateway.live := hI.held.moves (effect_moves hF hstep heff)
  refine ⟨hF.step hstep, hI.stopping.step hstep, ?_⟩
  rw [hm']
  exact ⟨hheld.serials, hheld.copied, hheld.accounts, hheld.sound⟩

theorem sound_of_run {batchSize : Int} {as : List (GatewayAction × Addr)}
    (h : exec Payloads.step (init batchSize) as = some m) : m.Sound :=
  exec_preserves (fun _ _ _ hI hstep => hI.step hstep) (sound_init batchSize) h

/-- When the gateway has stopped, nobody has a sample in hand. -/
theorem Sound.live_eq_nil (hI : m.Sound) (hstop : m.gateway.stop = .returned) :
    m.gateway.live = [] := by
  have hwriter : m.gateway.writerPc = .done := hI.stopping.joined (by rw [hstop]; rfl)
  have hmessage : m.gateway.message = .idle := hI.stopping.closed (by rw [hstop]; rfl)
  have hqueue : m.gateway.queue = .empty := hI.stopping.swept hstop
  rw [TelemetryGateway.live, hwriter, hmessage, hqueue, Queue.rep_empty.contents]
  rfl

/-- No step of the pipeline waits for the heap. -/
theorem Sound.answers {a : GatewayAction} {g' : TelemetryGateway} (hI : m.Sound)
    (h : m.gateway.step a = some g') :
    ∃ r m', m.step (a, r) = some m' ∧ m'.gateway = g' := by
  obtain ⟨r, hr⟩ := hI.held.accounts.exists_free
  have heff : ∃ n, m.effect a r = some n := by
    cases a with
    | writer c => exact ⟨_, rfl⟩
    | stop => exact ⟨_, rfl⟩
    | message c =>
      show ∃ n, m.messageEffect c r = some n
      unfold messageEffect
      split
      · rw [if_pos hr]
        exact ⟨_, (apply_ite some _ _ _).symm⟩
      · exact ⟨_, rfl⟩
      · exact ⟨_, rfl⟩
      · exact ⟨_, rfl⟩
  obtain ⟨n, hn⟩ := heff
  refine ⟨r, { n with gateway := g' }, ?_, rfl⟩
  rw [Payloads.step, h, Option.bind_some, hn]
  rfl

/-- Every run of the pipeline is one with the copies on the heap. -/
theorem exists_run {batchSize : Int} {as : List GatewayAction} {g : TelemetryGateway}
    (h : exec TelemetryGateway.step (.init batchSize) as = some g) :
    ∃ bs m, bs.map Prod.fst = as ∧ exec Payloads.step (init batchSize) bs = some m ∧
      m.gateway = g := by
  have hrun : ∀ (as : List GatewayAction) (m : Payloads), m.Sound →
      exec TelemetryGateway.step m.gateway as = some g →
      ∃ bs m', bs.map Prod.fst = as ∧ exec Payloads.step m bs = some m' ∧ m'.gateway = g := by
    intro as
    induction as with
    | nil =>
      intro m _ h
      exact ⟨[], m, rfl, rfl, Option.some.inj h⟩
    | cons a as ih =>
      intro m hI h
      obtain ⟨g', hg', hrest⟩ := exec_cons h
      obtain ⟨r, m', hm', rfl⟩ := hI.answers hg'
      obtain ⟨bs, m'', hbs, hexec, hg⟩ := ih m' (hI.step hm') hrest
      refine ⟨(a, r) :: bs, m'', ?_, ?_, hg⟩
      · rw [List.map_cons, hbs]
      · rw [exec, hm', Option.bind_some, hexec]
  exact hrun as (init batchSize) (sound_init batchSize) h

/-- **No copy of a payload is lost, and none is released twice.** In every run of the pipeline,
whatever fails in it and whatever addresses the allocator hands out again: `fault`, which a
second release or a read of a copy that is not the sample's would set, is not set; the heap
holds exactly the payloads of the samples that are somewhere between `on_message` and the end of
the broadcast, each at the address its sample has; and when `telemetry_gateway_stop` returns,
nothing is left there. -/
theorem payloads_released {batchSize : Int} {as : List (GatewayAction × Addr)}
    (h : exec Payloads.step (init batchSize) as = some m) :
    m.fault = false ∧
      (∀ r payload, m.copies r = some payload ↔
        ∃ s ∈ m.gateway.live, m.raw s.serial = some r ∧ s.state.raw = some payload) ∧
      (m.gateway.stop = .returned → ∀ r, m.copies r = none) := by
  have hI := sound_of_run h
  refine ⟨hI.held.sound, fun r payload => ?_, fun hstop => ?_⟩
  · rw [hI.held.accounts.block, List.mem_filterMap]
    simp only [block, Option.bind_eq_some_iff, Option.map_eq_some_iff, Prod.mk.injEq]
    constructor
    · rintro ⟨s, hs, r', hr', payload', hpayload', rfl, rfl⟩
      exact ⟨s, hs, hr', hpayload'⟩
    · rintro ⟨s, hs, hr, hpayload⟩
      exact ⟨s, hs, r, hr, payload, hpayload, rfl, rfl⟩
  · have haccounts := hI.held.accounts
    rw [hI.live_eq_nil hstop, List.filterMap_nil] at haccounts
    exact congrFun haccounts.eq_empty

/-- A message of one byte is written, and the gateway stopped. -/
def copiedMessage : List GatewayAction :=
  [.message (.arrives telemetryTopicState [7]), .message .go, .message (.unpacked .empty 0),
    .message .go, .message (.allocated 0), .message .go, .writer .go] ++ oneBatch ++ stopAtHead

/-- The copy is at the address 5. -/
def copiedRun : List (GatewayAction × Addr) := copiedMessage.map fun a => (a, 5)

theorem payloads_released_copied :
    ∃ m, exec Payloads.step (init 1) copiedRun = some m ∧ m.raw 0 = some 5 ∧
      m.fault = false ∧ ∀ r, m.copies r = none := by
  have hrun : (exec Payloads.step (init 1) copiedRun).map
      (fun m => (m.gateway.stop, m.raw 0)) = some (.returned, some 5) := by decide
  obtain ⟨m, hm, hpair⟩ := Option.map_eq_some_iff.mp hrun
  obtain ⟨hstop, hraw⟩ := Prod.mk.inj hpair
  obtain ⟨hfault, -, hnone⟩ := payloads_released hm
  exact ⟨m, hm, hraw, hfault, hnone hstop⟩

end Payloads

end TelemetryTestbed.Gateway

import TelemetryTestbed.Laws.WebSocket.Sending

/-!
# What one step of a party does

Every step of the server changes the store through pointers some party knows
(`Store.Change`), and its effect on the wires is one of a few: nothing, a call
begins, a `send` succeeds, a `send` fails. The lemmas say for each party which of
them its steps are, with no condition on the run, so they also cover the steps
that use a client after its release.

They are the inversion lemmas of the machine, and the invariants of the runs are proved from
them. What a party knows is in its program counter, so a step can change the store only at the
descriptors and records that are named there.
-/

namespace TelemetryTestbed.WebSocket

open TelemetryTestbed.Lib

/-! ## The parties and their pointers -/

/-- The connection and the descriptor a record was allocated for. -/
def Cell.named? : Cell → Option (ConnId × Fd)
  | .fresh => none
  | .live c | .released c => some (c.conn, c.fd)

def ThreadPc.ptr? : ThreadPc → Option Ptr
  | start p | handshake p _ _ | respond p _ _ _ | reply p _ _ | sending p _ _ _ | head p
  | recv p | receiving p _ | leave p | close p | remove p | free p => some p
  | absent | done => none

def AcceptPc.ptr? : AcceptPc → Option Ptr
  | register p _ | create p _ | detach p | failMark p _ | failClose p _ | failRemove p
  | failFree p => some p
  | head | waiting | accepted _ _ | drop _ _ | done => none

def BcastPc.ptrs : BcastPc → List Ptr
  | visit seen rest => seen ++ rest
  | call seen p rest | sending seen p rest _ _ | next seen p rest | mark seen p rest
  | unlink seen p rest | close seen p rest | free seen p rest => seen ++ p :: rest

def StopPc.ptrs : StopPc → List Ptr
  | walk todo => todo
  | mark p todo | close p todo | free p todo => p :: todo
  | idle | join | take | returned => []

/-- `client_thread` has left its loop, and its `close(c->fd)` is still to come. -/
def ThreadPc.leaves : ThreadPc → Bool
  | leave _ | close _ => true
  | _ => false

/-- The client a broadcast is removing, before its `close(c->fd)`. -/
def BcastPc.retires : BcastPc → Option ConnId
  | mark _ p _ | unlink _ p _ | close _ p _ => some p.conn
  | _ => none

/-- A party, or the list of clients, has the pointer. It may lead to a record that was released;
that it leads to one at all is an invariant. -/
inductive Server.Points (s : Server) (p : Ptr) : Prop
  | thread (k : ConnId) (h : (s.thread k).ptr? = some p)
  | accept (h : s.accept.ptr? = some p)
  | client (h : p ∈ s.store.clients)
  | bcast (b : Broadcast) (hb : s.bcast = some b) (h : p ∈ b.pc.ptrs)
  | stop (h : p ∈ s.stop.ptrs)

/-! ## What an access to a record can do -/

namespace Store

/-- No connection is added, no descriptor is opened, and every record keeps its name. All
changes but those of `accept` and `calloc` are such. -/
structure Keeps (t t' : Store) : Prop where
  nextConn : t'.nextConn = t.nextConn
  fds : ∀ n k, t'.fds n = some k → t.fds n = some k
  named : ∀ r, (t'.heap r).named? = (t.heap r).named?

variable {t t' t'' : Store} {p : Ptr}

theorem Keeps.refl (t : Store) : t.Keeps t := ⟨rfl, fun _ _ h => h, fun _ => rfl⟩

theorem Keeps.trans (h : t.Keeps t') (h' : t'.Keeps t'') : t.Keeps t'' where
  nextConn := h'.nextConn.trans h.nextConn
  fds := fun n k hn => h.fds n k (h'.fds n k hn)
  named := fun r => (h'.named r).trans (h.named r)

theorem keeps_touch (t : Store) (p : Ptr) : t.Keeps (t.touch p) := by
  unfold touch
  split
  · exact Keeps.refl t
  · exact ⟨rfl, fun _ _ h => h, fun _ => rfl⟩

theorem keeps_clients (h : t.Keeps t') (l : List Ptr) : t.Keeps { t' with clients := l } :=
  ⟨h.nextConn, h.fds, h.named⟩

theorem keeps_markDead (t : Store) (p : Ptr) : t.Keeps (t.markDead p) := by
  have htouch := keeps_touch t p
  refine ⟨htouch.nextConn, htouch.fds, fun r => ?_⟩
  show (Function.update (t.touch p).heap p.addr ((t.touch p).heap p.addr).dead r).named? = _
  rw [Function.update_apply, ← htouch.named r]
  split
  next h =>
    rw [h]
    cases (t.touch p).heap p.addr with
    | fresh | live c | released c => rfl
  next => rfl

theorem keeps_close (t : Store) (n : Fd) (k : ConnId) : t.Keeps (t.close n k) := by
  refine ⟨rfl, fun m j hm => ?_, fun _ => rfl⟩
  replace hm : Function.update t.fds n none m = some j := hm
  rw [Function.update_apply] at hm
  split at hm
  · cases hm
  · exact hm

theorem keeps_closeOf (t : Store) (p : Ptr) : t.Keeps (t.closeOf p) :=
  (keeps_touch t p).trans (keeps_close _ _ _)

theorem keeps_clientRemove (t : Store) (p : Ptr) : t.Keeps (t.clientRemove p) := by
  refine keeps_clients ?_ _
  generalize walked p.addr t.clients = l
  induction l generalizing t with
  | nil => exact Keeps.refl t
  | cons q l ih => exact (keeps_touch t q).trans (ih (t.touch q))

/-- The name of a record that was allocated stays when it is released. -/
theorem keeps_free (hp : (t.heap p.addr).named? ≠ none) : t.Keeps (t.free p) := by
  have htouch := keeps_touch t p
  refine ⟨htouch.nextConn, htouch.fds, fun r => ?_⟩
  show (Function.update (t.touch p).heap p.addr (.released ((t.touch p).load p)) r).named? = _
  rw [Function.update_apply, ← htouch.named r]
  rw [← htouch.named] at hp
  split
  next h =>
    rw [h, load]
    cases hcell : (t.touch p).heap p.addr with
    | fresh =>
      rw [hcell] at hp
      exact absurd rfl hp
    | live c | released c => rfl
  next => rfl

/-- What the parties do to the store, through pointers they know. It is one operation of the
store, or two in a row where the source has no access of another party in between. -/
inductive Change (t : Store) (known : Ptr → Prop) : Store → Prop
  | same : Change t known t
  | take : Change t known { t with clients := [] }
  | touch (p : Ptr) : Change t known (t.touch p)
  | push (p : Ptr) (h : known p) : Change t known (t.push p)
  | relink (p : Ptr) (l : List Ptr) (h : ∀ q ∈ l, known q) :
    Change t known { t.touch p with clients := l }
  | markDead (p : Ptr) : Change t known (t.markDead p)
  | close (n : Fd) (k : ConnId) : Change t known (t.close n k)
  | closeOf (p : Ptr) : Change t known (t.closeOf p)
  | clientRemove (p : Ptr) : Change t known (t.clientRemove p)
  | free (p : Ptr) (h : known p) : Change t known (t.free p)

namespace Change

variable {known : Ptr → Prop}

theorem keeps (h : t.Change known t')
    (hknown : ∀ p, known p → (t.heap p.addr).named? ≠ none) : t.Keeps t' := by
  cases h with
  | same => exact Keeps.refl t
  | take => exact keeps_clients (Keeps.refl t) _
  | touch p => exact keeps_touch t p
  | push p _ | relink p _ _ => exact keeps_clients (keeps_touch t p) _
  | markDead p => exact keeps_markDead t p
  | close n k => exact keeps_close t n k
  | closeOf p => exact keeps_closeOf t p
  | clientRemove p => exact keeps_clientRemove t p
  | free p h => exact keeps_free (hknown p h)

/-- The list gets no pointer that is not known. -/
theorem clients (h : t.Change known t') (hclients : ∀ q ∈ t.clients, known q) :
    ∀ q ∈ t'.clients, known q := by
  cases h with
  | same | close n k => exact hclients
  | take => exact nofun
  | touch p => rwa [touch_clients]
  | markDead p => rwa [markDead_clients]
  | closeOf p => rwa [closeOf_clients]
  | free p _ => rwa [free_clients]
  | push p hp =>
    intro q hq
    rcases List.mem_cons.mp hq with rfl | hq
    · exact hp
    · exact hclients q hq
  | relink p l hl => exact hl
  | clientRemove p => exact fun q hq => hclients q (List.mem_of_mem_eraseP hq)

end Change

end Store

/-! ## Threads -/

/-- A step of the thread of `k` that takes it to `pc`: the other parties stay where they are,
and the thread keeps its pointer or is done. -/
structure Server.ThreadTo (s s' : Server) (k : ConnId) (pc : ThreadPc) : Prop where
  thread : s'.thread = Function.update s.thread k pc
  ptr : ∃ p, (s.thread k).ptr? = some p ∧ (pc.ptr? = some p ∨ pc = .done)
  accept : s'.accept = s.accept
  bcast : s'.bcast = s.bcast
  stop : s'.stop = s.stop
  calls : s.nextCall ≤ s'.nextCall
  store : s.store.Change s.Points s'.store

/-- What the step does on the wires, and with the connection. A step that is quiet does nothing
there; every other one is a beginning, a `send` that succeeds, or one that fails. -/
inductive Server.ThreadEvent (s s' : Server) (k : ConnId) (pc : ThreadPc) : Choice → Prop
  | quiet {c : Choice} (hwire : s'.wire = s.wire) (hout : (s.thread k).out? = none)
      (hpc : pc.out? = none)
      (hreply : ∀ p frame next, pc = .reply p frame next → SentFrame frame)
      (hleaves : (s.thread k).leaves = true → pc.leaves = true ∨
        ∃ p, s.thread k = .close p ∧ c = .go ∧ s'.store = s.store.closeOf p) :
      s.ThreadEvent s' k pc c
  | begins {p : Ptr} {fd : Fd} {frame : List Bytes} {next : After}
      (hp : s.thread k = .reply p frame next) (hwire : s'.wire = s.wire)
      (hpc : pc = .sending p fd (s.beginFrame frame) next)
      (hcalls : s'.nextCall = s.nextCall + 1) : s.ThreadEvent s' k pc .go
  | http {p : Ptr} {fd : Fd} {http rest : Bytes} {w : Nat} {j : ConnId}
      (hp : s.thread k = .respond p fd http rest) (hfd : s.store.fds fd = some j)
      (hwire : s'.wire = Function.update s.wire j (s.wire j ++ [.http (rest.take w)]))
      (hpc : pc.out? = none)
      (hreply : ∀ p frame next, pc = .reply p frame next → SentFrame frame) :
      s.ThreadEvent s' k pc (.sent w)
  | frame {p : Ptr} {fd : Fd} {out : Sending} {next : After} {w : Nat} {j : ConnId}
      (hp : s.thread k = .sending p fd out next) (hw : ¬ (w = 0 ∨ out.buf.length < w))
      (hfd : s.store.fds fd = some j)
      (hwire : s'.wire =
        Function.update s.wire j (s.wire j ++ [.frame out.call (out.buf.take w)]))
      (hcalls : s'.nextCall = s.nextCall) (hpc : pc.out? = out.advance w)
      (hreply : ∀ p frame next, pc ≠ .reply p frame next) :
      s.ThreadEvent s' k pc (.sent w)
  | failed {p : Ptr} {fd : Fd} {out : Sending} {next : After}
      (hp : s.thread k = .sending p fd out next) (hwire : s'.wire = s.wire)
      (hpc : next = .loop ∧ pc = .head p ∨ next = .leave ∧ pc = .leave p) :
      s.ThreadEvent s' k pc .failed

section

variable {s s' : Server} {c : Choice} {k : ConnId}

theorem Server.threadStep_event (h : s.threadStep k c = some s') :
    ∃ pc, s.ThreadTo s' k pc ∧ s.ThreadEvent s' k pc c := by
  have hknown : ∀ {p : Ptr}, (s.thread k).ptr? = some p → s.Points p :=
    fun hp => .thread k hp
  have hstay : ∀ {P : Prop}, (s.thread k).leaves = false → (s.thread k).leaves = true → P :=
    fun hf ht => Bool.noConfusion (hf.symm.trans ht)
  unfold Server.threadStep at h
  split at h
  next p hp =>
    cases h
    exact ⟨_, ⟨rfl, ⟨p, hp ▸ rfl, Or.inl rfl⟩, rfl, rfl, rfl, Nat.le_refl _, .touch p⟩,
      .quiet rfl (hp ▸ rfl) rfl nofun (hstay (hp ▸ rfl))⟩
  next p fd buf hp =>
    cases h
    exact ⟨_, ⟨rfl, ⟨p, hp ▸ rfl, Or.inl rfl⟩, rfl, rfl, rfl, Nat.le_refl _, .same⟩,
      .quiet rfl (hp ▸ rfl) rfl nofun (hstay (hp ▸ rfl))⟩
  next p fd buf bytes hp =>
    split at h
    · cases h
    · split at h
      · cases h
        exact ⟨_, ⟨rfl, ⟨p, hp ▸ rfl, Or.inl rfl⟩, rfl, rfl, rfl, Nat.le_refl _, .same⟩,
          .quiet rfl (hp ▸ rfl) rfl nofun (hstay (hp ▸ rfl))⟩
      · cases h
        exact ⟨_, ⟨rfl, ⟨p, hp ▸ rfl, Or.inl rfl⟩, rfl, rfl, rfl, Nat.le_refl _, .same⟩,
          .quiet rfl (hp ▸ rfl) rfl nofun (hstay (hp ▸ rfl))⟩
      · split at h
        · cases h
          exact ⟨_, ⟨rfl, ⟨p, hp ▸ rfl, Or.inl rfl⟩, rfl, rfl, rfl, Nat.le_refl _, .same⟩,
            .quiet rfl (hp ▸ rfl) rfl nofun (hstay (hp ▸ rfl))⟩
        · cases h
          exact ⟨_, ⟨rfl, ⟨p, hp ▸ rfl, Or.inl rfl⟩, rfl, rfl, rfl, Nat.le_refl _, .same⟩,
            .quiet rfl (hp ▸ rfl) rfl nofun (hstay (hp ▸ rfl))⟩
  next p fd http rest hp =>
    cases h
    exact ⟨_, ⟨rfl, ⟨p, hp ▸ rfl, Or.inl rfl⟩, rfl, rfl, rfl, Nat.le_refl _, .same⟩,
      .quiet rfl (hp ▸ rfl) rfl nofun (hstay (hp ▸ rfl))⟩
  next p fd http rest w hp =>
    split at h
    · cases h
    next hw =>
      obtain ⟨m, hm, hs⟩ := Option.map_eq_some_iff.mp h
      obtain ⟨j, hfd, rfl⟩ := Option.map_eq_some_iff.mp hm
      split at hs
      · cases hs
        refine ⟨_, ⟨rfl, ⟨p, hp ▸ rfl, Or.inl rfl⟩, rfl, rfl, rfl, Nat.le_refl _, .same⟩,
          .http hp hfd rfl rfl fun p frame next e => ?_⟩
        cases e
        exact Or.inl ⟨_, rfl⟩
      · cases hs
        exact ⟨_, ⟨rfl, ⟨p, hp ▸ rfl, Or.inl rfl⟩, rfl, rfl, rfl, Nat.le_refl _, .same⟩,
          .http hp hfd rfl rfl nofun⟩
  next p frame next hp =>
    cases h
    exact ⟨_, ⟨rfl, ⟨p, hp ▸ rfl, Or.inl rfl⟩, rfl, rfl, rfl, Nat.le_succ _, .touch p⟩,
      .begins hp rfl rfl rfl⟩
  next p fd out next hp =>
    cases h
    cases next with
    | loop =>
      exact ⟨_, ⟨rfl, ⟨p, hp ▸ rfl, Or.inl rfl⟩, rfl, rfl, rfl, Nat.le_refl _, .same⟩,
        .failed hp rfl (Or.inl ⟨rfl, rfl⟩)⟩
    | leave =>
      exact ⟨_, ⟨rfl, ⟨p, hp ▸ rfl, Or.inl rfl⟩, rfl, rfl, rfl, Nat.le_refl _, .same⟩,
        .failed hp rfl (Or.inr ⟨rfl, rfl⟩)⟩
  next p fd out next w hp =>
    split at h
    · cases h
    next hw =>
      obtain ⟨m, hm, hs⟩ := Option.map_eq_some_iff.mp h
      obtain ⟨j, hfd, rfl⟩ := Option.map_eq_some_iff.mp hm
      cases hadv : out.advance w with
      | some out' =>
        rw [hadv] at hs
        cases hs
        exact ⟨_, ⟨rfl, ⟨p, hp ▸ rfl, Or.inl rfl⟩, rfl, rfl, rfl, Nat.le_refl _, .same⟩,
          .frame hp hw hfd rfl rfl hadv.symm nofun⟩
      | none =>
        rw [hadv] at hs
        cases hs
        cases next with
        | loop | leave =>
          exact ⟨_, ⟨rfl, ⟨p, hp ▸ rfl, Or.inl rfl⟩, rfl, rfl, rfl, Nat.le_refl _, .same⟩,
            .frame hp hw hfd rfl rfl hadv.symm nofun⟩
  next p hp =>
    cases h
    refine ⟨_, ⟨rfl, ⟨p, hp ▸ rfl, Or.inl ?_⟩, rfl, rfl, rfl, Nat.le_refl _, .touch p⟩,
      .quiet rfl (hp ▸ rfl) ?_ ?_ (hstay (hp ▸ rfl))⟩
    · split <;> rfl
    · split <;> rfl
    · intro q frame next e
      split at e <;> cases e
  next p hp =>
    cases h
    exact ⟨_, ⟨rfl, ⟨p, hp ▸ rfl, Or.inl rfl⟩, rfl, rfl, rfl, Nat.le_refl _, .touch p⟩,
      .quiet rfl (hp ▸ rfl) rfl nofun (hstay (hp ▸ rfl))⟩
  next p fd hp =>
    cases h
    exact ⟨_, ⟨rfl, ⟨p, hp ▸ rfl, Or.inl rfl⟩, rfl, rfl, rfl, Nat.le_refl _, .same⟩,
      .quiet rfl (hp ▸ rfl) rfl nofun (hstay (hp ▸ rfl))⟩
  next p fd opcode payload db hp =>
    have hsent := sentFrame_clientReply db opcode payload
    cases h
    refine ⟨_, ⟨rfl, ⟨p, hp ▸ rfl, Or.inl ?_⟩, rfl, rfl, rfl, Nat.le_refl _, .same⟩,
      .quiet rfl (hp ▸ rfl) ?_ ?_ (hstay (hp ▸ rfl))⟩
    · split <;> rfl
    · split <;> rfl
    · intro q frame next e
      split at e
      next hreply =>
        rw [hreply] at hsent
        cases e
        exact hsent
      next hreply =>
        rw [hreply] at hsent
        cases e
        exact hsent
      next => cases e
  next p hp =>
    cases h
    exact ⟨_, ⟨rfl, ⟨p, hp ▸ rfl, Or.inl rfl⟩, rfl, rfl, rfl, Nat.le_refl _, .markDead p⟩,
      .quiet rfl (hp ▸ rfl) rfl nofun fun _ => Or.inl rfl⟩
  next p hp =>
    cases h
    exact ⟨_, ⟨rfl, ⟨p, hp ▸ rfl, Or.inl rfl⟩, rfl, rfl, rfl, Nat.le_refl _, .closeOf p⟩,
      .quiet rfl (hp ▸ rfl) rfl nofun fun _ => Or.inr ⟨p, hp, rfl, rfl⟩⟩
  next p hp =>
    split at h
    · cases h
      exact ⟨_, ⟨rfl, ⟨p, hp ▸ rfl, Or.inl rfl⟩, rfl, rfl, rfl, Nat.le_refl _,
        .clientRemove p⟩, .quiet rfl (hp ▸ rfl) rfl nofun (hstay (hp ▸ rfl))⟩
    · cases h
  next p hp =>
    cases h
    exact ⟨_, ⟨rfl, ⟨p, hp ▸ rfl, Or.inr rfl⟩, rfl, rfl, rfl, Nat.le_refl _,
      .free p (hknown (hp ▸ rfl))⟩,
      .quiet rfl (hp ▸ rfl) rfl nofun (hstay (hp ▸ rfl))⟩
  next => cases h

end

/-! ## Broadcasts -/

/-- A step of the broadcast that holds the mutex: no thread moves, and the pointers it has
afterwards it had before, or they were on the list. -/
structure Server.BcastTo (s s' : Server) : Prop where
  thread : s'.thread = s.thread
  accept : s'.accept = s.accept
  stop : s'.stop = s.stop
  ptrs : ∀ b, s'.bcast = some b → ∀ q ∈ b.pc.ptrs, s.Points q
  calls : s.nextCall ≤ s'.nextCall
  store : s.store.Change s.Points s'.store

/-- What the step of the broadcast `b` does on the wires, and with its clients. -/
inductive Server.BcastEvent (s s' : Server) (b : Broadcast) : Choice → Prop
  | quiet {c : Choice} (hwire : s'.wire = s.wire) (hout : b.pc.out? = none)
      (hnext : ∀ b', s'.bcast = some b' → b'.pc.out? = none)
      (hretires : ∀ k, b.pc.retires = some k →
        (∃ b', s'.bcast = some b' ∧ b'.pc.retires = some k) ∨
        ∃ seen p rest, b.pc = .close seen p rest ∧ c = .go ∧ p.conn = k ∧
          s'.store = s.store.closeOf p) : s.BcastEvent s' b c
  | begins {seen rest : List Ptr} {p : Ptr} {fd : Fd} (hb : b.pc = .call seen p rest)
      (hwire : s'.wire = s.wire)
      (hnext : s'.bcast =
        some { b with pc := .sending seen p rest fd (s.beginFrame (wsSendText b.msg)) })
      (hcalls : s'.nextCall = s.nextCall + 1) : s.BcastEvent s' b .go
  | frame {seen rest : List Ptr} {p : Ptr} {fd : Fd} {out : Sending} {w : Nat} {j : ConnId}
      {b' : Broadcast} (hb : b.pc = .sending seen p rest fd out)
      (hw : ¬ (w = 0 ∨ out.buf.length < w)) (hfd : s.store.fds fd = some j)
      (hwire : s'.wire =
        Function.update s.wire j (s.wire j ++ [.frame out.call (out.buf.take w)]))
      (hcalls : s'.nextCall = s.nextCall) (hnext : s'.bcast = some b')
      (hout : b'.pc.out? = out.advance w)
      (htarget : b'.pc.target = some p.conn ∨ b'.pc.out? = none) :
      s.BcastEvent s' b (.sent w)
  | failed {seen rest : List Ptr} {p : Ptr} {fd : Fd} {out : Sending}
      (hb : b.pc = .sending seen p rest fd out) (hwire : s'.wire = s.wire)
      (hnext : s'.bcast = some { b with pc := .mark seen p rest }) :
      s.BcastEvent s' b .failed

section

variable {s s' : Server} {c : Choice}

theorem Server.bcastStep_event (h : s.bcastStep c = some s') :
    s.BcastTo s' ∧ ∃ b, s.bcast = some b ∧ s.BcastEvent s' b c := by
  unfold Server.bcastStep at h
  split at h
  next => cases h
  next b hb =>
    -- Every pointer of the step is one the broadcast had.
    have hknown : ∀ q ∈ b.pc.ptrs, s.Points q := fun q hq => .bcast b hb hq
    obtain ⟨msg, pc⟩ := b
    dsimp only at h hknown
    split at h
    next =>
      cases h
      exact ⟨⟨rfl, rfl, rfl, nofun, Nat.le_refl _, .same⟩, _, hb, .quiet rfl rfl nofun nofun⟩
    next seen p rest =>
      cases h
      refine ⟨⟨rfl, rfl, rfl, fun b' e => ?_, Nat.le_refl _, .touch p⟩, _, hb,
        .quiet rfl rfl (fun b' e => ?_) nofun⟩
      · cases e
        dsimp only
        split <;> exact hknown
      · cases e
        dsimp only
        split <;> rfl
    next seen p rest =>
      cases h
      refine ⟨⟨rfl, rfl, rfl, fun b' e => ?_, Nat.le_succ _, .touch p⟩, _, hb,
        .begins rfl rfl rfl rfl⟩
      cases e
      exact hknown
    next seen p rest fd out =>
      cases h
      refine ⟨⟨rfl, rfl, rfl, fun b' e => ?_, Nat.le_refl _, .same⟩, _, hb,
        .failed rfl rfl rfl⟩
      cases e
      exact hknown
    next seen p rest fd out w =>
      split at h
      · cases h
      next hw =>
        obtain ⟨m, hm, hs⟩ := Option.map_eq_some_iff.mp h
        obtain ⟨j, hfd, rfl⟩ := Option.map_eq_some_iff.mp hm
        cases hadv : out.advance w with
        | some out' =>
          rw [hadv] at hs
          cases hs
          refine ⟨⟨rfl, rfl, rfl, fun b' e => ?_, Nat.le_refl _, .same⟩, _, hb,
            .frame rfl hw hfd rfl rfl rfl hadv.symm (Or.inl rfl)⟩
          cases e
          exact hknown
        | none =>
          rw [hadv] at hs
          cases hs
          refine ⟨⟨rfl, rfl, rfl, fun b' e => ?_, Nat.le_refl _, .same⟩, _, hb,
            .frame rfl hw hfd rfl rfl rfl hadv.symm (Or.inr rfl)⟩
          cases e
          exact hknown
    next seen p rest =>
      cases h
      refine ⟨⟨rfl, rfl, rfl, fun b' e => ?_, Nat.le_refl _, .touch p⟩, _, hb,
        .quiet rfl rfl (fun b' e => ?_) nofun⟩
      · cases e
        intro q hq
        apply hknown q
        rwa [BcastPc.ptrs, List.append_assoc] at hq
      · cases e
        rfl
    next seen p rest =>
      cases h
      refine ⟨⟨rfl, rfl, rfl, fun b' e => ?_, Nat.le_refl _, .markDead p⟩, _, hb,
        .quiet rfl rfl (fun b' e => ?_) fun k e => Or.inl ⟨_, rfl, e⟩⟩
      · cases e
        exact hknown
      · cases e
        rfl
    next seen p rest =>
      cases h
      refine ⟨⟨rfl, rfl, rfl, fun b' e => ?_, Nat.le_refl _, .relink p _ fun q hq => ?_⟩, _,
        hb, .quiet rfl rfl (fun b' e => ?_) fun k e => Or.inl ⟨_, rfl, e⟩⟩
      · cases e
        exact hknown
      · apply hknown q
        exact List.mem_append.mpr
          ((List.mem_append.mp hq).imp_right (List.mem_cons_of_mem _))
      · cases e
        rfl
    next seen p rest =>
      cases h
      refine ⟨⟨rfl, rfl, rfl, fun b' e => ?_, Nat.le_refl _, .closeOf p⟩, _, hb,
        .quiet rfl rfl (fun b' e => ?_) fun k e => Or.inr ?_⟩
      · cases e
        exact hknown
      · cases e
        rfl
      · exact ⟨seen, p, rest, rfl, rfl, Option.some.inj e, rfl⟩
    next seen p rest =>
      cases h
      refine ⟨⟨rfl, rfl, rfl, fun b' e => ?_, Nat.le_refl _, .free p ?_⟩, _, hb,
        .quiet rfl rfl (fun b' e => ?_) nofun⟩
      · cases e
        intro q hq
        apply hknown q
        exact List.mem_append.mpr
          ((List.mem_append.mp hq).imp_right (List.mem_cons_of_mem _))
      · exact hknown p (List.mem_append_right _ List.mem_cons_self)
      · cases e
        rfl
    next => cases h

end

/-! ## `accept_thread` and `ws_server_stop` -/

/-- What a step of `accept_thread` does with connections and records: it accepts one, allocates
its record, creates its thread, or does none of these. -/
inductive Server.AcceptEvent (s s' : Server) : Choice → Prop
  | quiet {c : Choice} (hthread : s'.thread = s.thread)
      (hptr : ∀ q, s'.accept.ptr? = some q → s.accept.ptr? = some q)
      (hholds : ∀ k, s'.accept.holds = some k → s.accept.holds = some k)
      (hpc : ∀ n k, s'.accept ≠ .accepted n k)
      (hstore : s.store.Change s.Points s'.store) : s.AcceptEvent s' c
  | opened {n : Fd} (hthread : s'.thread = s.thread) (hfree : s.store.fds n = none)
      (hpc : s'.accept = .accepted n s.store.nextConn)
      (hstore : s'.store = s.store.accepted n) : s.AcceptEvent s' (.opened n)
  | allocated {n : Fd} {k : ConnId} {r : Addr} (hp : s.accept = .accepted n k)
      (hthread : s'.thread = s.thread) (hpc : s'.accept = .register ⟨r, k⟩ n)
      (hstore : s'.store = s.store.alloc r n k) : s.AcceptEvent s' (.allocated r)
  | created {p : Ptr} {n : Fd} (hp : s.accept = .create p n)
      (hthread : s'.thread = Function.update s.thread p.conn (.start p))
      (hpc : s'.accept = .detach p) (hstore : s'.store = s.store.touch p) :
      s.AcceptEvent s' .go

section

variable {s s' : Server} {c : Choice}

theorem Server.acceptStep_event (h : s.acceptStep c = some s') :
    s'.stop = s.stop ∧ s.AcceptEvent s' c := by
  have hknown : ∀ {p : Ptr}, s.accept.ptr? = some p → s.Points p :=
    fun hp => .accept hp
  unfold Server.acceptStep at h
  split at h
  next hp =>
    cases h
    refine ⟨rfl, .quiet rfl ?_ ?_ ?_ .same⟩
    all_goals
      dsimp only
      split <;> nofun
  next hp =>
    cases h
    refine ⟨rfl, .quiet rfl ?_ ?_ ?_ .same⟩
    all_goals
      dsimp only
      split <;> nofun
  next n hp =>
    split at h
    next hfree =>
      cases h
      exact ⟨rfl, .opened rfl hfree rfl rfl⟩
    next => cases h
  next n k hp =>
    cases h
    exact ⟨rfl, .quiet rfl nofun (fun j e => by rw [hp]; exact e) nofun .same⟩
  next n k hp =>
    cases h
    exact ⟨rfl, .quiet rfl nofun nofun nofun (.close n k)⟩
  next n k r hp =>
    split at h
    · cases h
    · cases h
      exact ⟨rfl, .allocated hp rfl rfl rfl⟩
  next p n hp =>
    split at h
    · cases h
      exact ⟨rfl, .quiet rfl (fun q e => by rw [hp]; exact e) (fun j e => by rw [hp]; exact e)
        nofun (.push p (hknown (hp ▸ rfl)))⟩
    · cases h
  next p n hp =>
    cases h
    exact ⟨rfl, .created hp rfl rfl rfl⟩
  next p n hp =>
    cases h
    exact ⟨rfl, .quiet rfl (fun q e => by rw [hp]; exact e) (fun j e => by rw [hp]; exact e)
      nofun (.touch p)⟩
  next p hp =>
    cases h
    exact ⟨rfl, .quiet rfl nofun nofun nofun (.touch p)⟩
  next p n hp =>
    cases h
    exact ⟨rfl, .quiet rfl (fun q e => by rw [hp]; exact e) (fun j e => by rw [hp]; exact e)
      nofun (.markDead p)⟩
  next p n hp =>
    cases h
    exact ⟨rfl, .quiet rfl (fun q e => by rw [hp]; exact e) (fun j e => by rw [hp]; exact e)
      nofun (.close n p.conn)⟩
  next p hp =>
    split at h
    · cases h
      exact ⟨rfl, .quiet rfl (fun q e => by rw [hp]; exact e) (fun j e => by rw [hp]; exact e)
        nofun (.clientRemove p)⟩
    · cases h
  next p hp =>
    cases h
    exact ⟨rfl, .quiet rfl nofun nofun nofun (.free p (hknown (hp ▸ rfl)))⟩
  next => cases h

theorem Server.stopStep_event (h : s.stopStep c = some s') :
    s'.accept = s.accept ∧ (∀ q ∈ s'.stop.ptrs, s.Points q) ∧
      s.store.Change s.Points s'.store := by
  have hknown : ∀ q ∈ s.stop.ptrs, s.Points q :=
    fun q hq => .stop hq
  unfold Server.stopStep at h
  split at h
  next hp =>
    cases h
    exact ⟨rfl, nofun, .same⟩
  next hp =>
    split at h
    · cases h
      exact ⟨rfl, nofun, .same⟩
    · cases h
  next hp =>
    split at h
    · cases h
      exact ⟨rfl, fun q hq => .client hq, .take⟩
    · cases h
  next hp =>
    cases h
    exact ⟨rfl, nofun, .same⟩
  next p todo hp =>
    rw [hp] at hknown
    cases h
    exact ⟨rfl, hknown, .touch p⟩
  next p todo hp =>
    rw [hp] at hknown
    cases h
    exact ⟨rfl, hknown, .markDead p⟩
  next p todo hp =>
    rw [hp] at hknown
    cases h
    exact ⟨rfl, hknown, .closeOf p⟩
  next p todo hp =>
    rw [hp] at hknown
    cases h
    exact ⟨rfl, fun q hq => hknown q (List.mem_cons_of_mem _ hq),
      .free p (hknown p List.mem_cons_self)⟩
  next => cases h

end

end TelemetryTestbed.WebSocket

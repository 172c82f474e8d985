import TelemetryTestbed.Laws.WebSocket.Codec
import TelemetryTestbed.WebSocket.ClientList
import TelemetryTestbed.WebSocket.Server

/-!
# What a broadcast delivers

A walk stands at the link behind the clients it has passed. Both of its branches that
remove a client leave the link where it is, and it points to the next client then; the
branch that keeps one moves it by one cell. So each client is met once, whatever becomes
of its neighbours (`broadcastLoop_eq`).

The invariant says which clients are behind the link, that the heap holds them and the ones in
front, and what has been sent, closed and freed on the way. A round removes one client or
passes one, so the number of clients that are left bounds the rounds.
-/

namespace TelemetryTestbed.WebSocket

open TelemetryTestbed.Lib

/-! ## `client_remove` -/

theorem clientRemoveLoop_eq {h : ClientList} {front rest : List (ClientAddr × ClientFields)}
    (hl : h.Holds (front ++ rest)) (c : ClientAddr) {n : Nat} (hn : rest.length < n) :
    ∃ h', clientRemoveLoop n h (LinkedHeap.linkBehind front) c = some h' ∧
      h'.Holds (front ++ rest.filter fun q => q.1 ≠ c) ∧
      ∀ r, r ∉ front.map Prod.fst → r ∉ rest.map Prod.fst → h'.nodes r = h.nodes r := by
  induction rest generalizing front n with
  | nil =>
    obtain ⟨n, rfl⟩ := Nat.exists_eq_succ_of_ne_zero (Nat.ne_zero_of_lt hn)
    refine ⟨h, ?_, hl, fun _ _ _ => rfl⟩
    have hload : h.load (LinkedHeap.linkBehind front) = none := hl.load
    rw [clientRemoveLoop, hload]
  | cons q rest ih =>
    obtain ⟨n, rfl⟩ := Nat.exists_eq_succ_of_ne_zero (Nat.ne_zero_of_lt hn)
    obtain ⟨r, v⟩ := q
    obtain ⟨hload, next, hcell, hnext⟩ := hl.load
    rw [clientRemoveLoop, hload]
    dsimp only
    by_cases hr : r = c
    · subst hr
      have hkeep : rest.filter (fun q => q.1 ≠ r) = rest := by
        apply List.filter_eq_self.mpr
        intro q hq
        have hmiddle := hl.notMem_of_middle
        rw [List.map_append, List.mem_append, not_or] at hmiddle
        exact decide_eq_true fun e => hmiddle.2 (e ▸ List.mem_map_of_mem hq)
      refine ⟨h.store (LinkedHeap.linkBehind front) next, ?_, ?_, ?_⟩
      · rw [if_pos rfl, hcell, Option.map_some]
      · rw [List.filter_cons_of_neg (by simp), hkeep]
        exact hl.unlink hcell
      · exact fun r' hfront _ => h.store_nodes next hfront
    · have hmoved : h.Holds ((front ++ [(r, v)]) ++ rest) := by
        rw [List.append_assoc]
        exact hl
      obtain ⟨h', hloop, hholds, hframe⟩ := ih hmoved (Nat.lt_of_succ_lt_succ hn)
      rw [LinkedHeap.linkBehind_concat] at hloop
      refine ⟨h', ?_, ?_, ?_⟩
      · rw [if_neg hr]
        exact hloop
      · rw [List.filter_cons_of_pos (by simpa using hr)]
        rw [List.append_assoc] at hholds
        exact hholds
      · intro r' hfront hrest
        rw [List.map_cons, List.mem_cons, not_or] at hrest
        apply hframe r' _ hrest.2
        rw [List.map_append, List.mem_append, not_or]
        exact ⟨hfront, fun hmem => hrest.1 (List.mem_singleton.mp hmem)⟩

/-- A client is taken out of the list of the machine as it is out of the cells. -/
theorem clientRemove_machine {h : ClientList} {t : Store} {fields : Ptr → ClientFields}
    (hl : h.Holds (t.clients.map fun q => (q.addr, fields q))) (p : Ptr) :
    ∃ h', clientRemove (t.clients.length + 1) h p.addr = some h' ∧
      h'.Holds ((t.clientRemove p).clients.map fun q => (q.addr, fields q)) := by
  have hlen : (t.clients.map fun q => (q.addr, fields q)).length < t.clients.length + 1 := by
    rw [List.length_map]
    exact Nat.lt_succ_self _
  obtain ⟨h', hloop, hholds, -⟩ := @clientRemoveLoop_eq h [] _ hl p.addr _ hlen
  refine ⟨h', hloop, ?_⟩
  have hnodup := hl.nodup
  rw [List.map_map] at hnodup
  have herase : ∀ l : List Ptr, (l.map fun q => q.addr).Nodup →
      (l.filter fun q => q.addr ≠ p.addr) = l.eraseP fun q => q.addr = p.addr := by
    intro l hl
    induction l with
    | nil => rfl
    | cons q l ih =>
      rw [List.map_cons, List.nodup_cons] at hl
      by_cases hq : q.addr = p.addr
      · rw [List.filter_cons_of_neg (by simpa using hq), List.eraseP_cons_of_pos (by simpa using hq),
          List.filter_eq_self]
        intro a ha
        exact decide_eq_true fun e => hl.1 (hq.trans e.symm ▸ List.mem_map_of_mem ha)
      · rw [List.filter_cons_of_pos (by simpa using hq), List.eraseP_cons_of_neg (by simpa using hq),
          ih hl.2]
  rw [List.nil_append, List.filter_map] at hholds
  show h'.Holds ((t.clients.eraseP fun q => q.addr = p.addr).map _)
  rw [← herase t.clients hnodup]
  exact hholds

/-! ## The broadcast -/

section

variable (msg : Bytes) (answers : ClientAddr → List SendAnswer)

/-- The call of `ws_send_text` on a client. -/
def textCall (c : ClientAddr × ClientFields) : Sent := sendFrame (answers c.1) (wsSendText msg)

/-- The client is alive and its call succeeds. -/
def served (c : ClientAddr × ClientFields) : Bool :=
  c.2.alive && (textCall msg answers c).result = some true

/-- Every call on a client that is alive returns. -/
def CallsReturn (cells : List (ClientAddr × ClientFields)) : Prop :=
  ∀ c ∈ cells, c.2.alive = true → (textCall msg answers c).result ≠ none

/-- What the calls on the clients that are alive write, in the order of the list. -/
def callsOn (cells : List (ClientAddr × ClientFields)) : List (ClientAddr × Bytes) :=
  (cells.filter fun c => c.2.alive).map fun c => (c.1, (textCall msg answers c).wire)

/-- The clients that are removed. -/
def removed (cells : List (ClientAddr × ClientFields)) : List (ClientAddr × ClientFields) :=
  cells.filter fun c => !served msg answers c

/-- The descriptors of the clients that are open. -/
def openFds (cells : List (ClientAddr × ClientFields)) : List Int :=
  (cells.map fun c => c.2.fd).filter fun fd => 0 ≤ fd

theorem openFds_cons (c : ClientAddr × ClientFields) (cells : List (ClientAddr × ClientFields)) :
    openFds (c :: cells) = (if 0 ≤ c.2.fd then [c.2.fd] else []) ++ openFds cells := by
  unfold openFds
  rw [List.map_cons]
  split
  · next h => rw [List.filter_cons_of_pos (by simpa using h), List.singleton_append]
  · next h => rw [List.filter_cons_of_neg (by simpa using h), List.nil_append]

/-- From a link in the middle of the list on, the loop does its work for the clients behind
the link, and leaves those that are served behind those in front of it. -/
theorem broadcastLoop_eq {front rest : List (ClientAddr × ClientFields)} {s : BroadcastState}
    (hl : s.list.Holds (front ++ rest)) (hreturn : CallsReturn msg answers rest) {n : Nat}
    (hn : rest.length < n) :
    ∃ list', broadcastLoop msg answers n s (LinkedHeap.linkBehind front) =
        some ⟨list', s.calls ++ callsOn msg answers rest,
          s.closed ++ openFds (removed msg answers rest),
          s.freed ++ (removed msg answers rest).map Prod.fst⟩ ∧
      list'.Holds (front ++ rest.filter (served msg answers)) := by
  induction rest generalizing front s n with
  | nil =>
    obtain ⟨n, rfl⟩ := Nat.exists_eq_succ_of_ne_zero (Nat.ne_zero_of_lt hn)
    have hload : s.list.load (LinkedHeap.linkBehind front) = none := hl.load
    refine ⟨s.list, ?_, hl⟩
    rw [broadcastLoop, hload]
    simp [callsOn, removed, openFds]
  | cons c rest ih =>
    obtain ⟨n, rfl⟩ := Nat.exists_eq_succ_of_ne_zero (Nat.ne_zero_of_lt hn)
    obtain ⟨r, v⟩ := c
    have hn' : rest.length < n := Nat.lt_of_succ_lt_succ hn
    have hreturn' : CallsReturn msg answers rest :=
      fun c hc => hreturn c (List.mem_cons_of_mem _ hc)
    obtain ⟨hload, next, hcell, hnext⟩ := hl.load
    -- Whatever the value of the cell is by then, the link in front of it points to the rest.
    have hdrop : ∀ (t : BroadcastState) (w : ClientFields),
        t.list.Holds (front ++ (r, w) :: rest) → t.list.nodes r = some ⟨w, next⟩ →
        (t.drop (LinkedHeap.linkBehind front) r ⟨v, next⟩).list.Holds (front ++ rest) :=
      fun t w ht hr => (ht.unlink hr).free ht.notMem_of_middle
    rw [broadcastLoop, hload]
    simp only [hcell]
    cases halive : v.alive with
    | false =>
      have hserved : served msg answers (r, v) = false := by simp [served, halive]
      obtain ⟨list', hloop, hholds⟩ := ih (hdrop s v hl hcell) hreturn' hn'
      refine ⟨list', ?_, ?_⟩
      · rw [Bool.not_false, if_pos rfl, hloop]
        simp [BroadcastState.drop, callsOn, removed, halive, hserved, openFds_cons]
      · rw [List.filter_cons_of_neg (by simp [hserved])]
        exact hholds
    | true =>
      have hcall : textCall msg answers (r, v) = sendFrame (answers r) (wsSendText msg) := rfl
      have hresult := hreturn (r, v) List.mem_cons_self halive
      rw [Bool.not_true, if_neg Bool.false_ne_true, ← hcall]
      cases hsent : (textCall msg answers (r, v)).result with
      | none => exact absurd hsent hresult
      | some ok =>
        cases ok with
        | true =>
          have hserved : served msg answers (r, v) = true := by simp [served, halive, hsent]
          have hmoved : s.list.Holds ((front ++ [(r, v)]) ++ rest) := by
            rw [List.append_assoc]
            exact hl
          obtain ⟨list', hloop, hholds⟩ := @ih _
            (s.sent r (textCall msg answers (r, v))) hmoved hreturn' n hn'
          rw [LinkedHeap.linkBehind_concat] at hloop
          refine ⟨list', ?_, ?_⟩
          · dsimp only
            rw [hloop]
            simp [BroadcastState.sent, callsOn, removed, halive, hserved]
          · rw [List.filter_cons_of_pos hserved]
            rw [List.append_assoc] at hholds
            exact hholds
        | false =>
          have hserved : served msg answers (r, v) = false := by simp [served, halive, hsent]
          have hmarked : Function.update s.list.nodes r (some ⟨{ v with alive := false }, next⟩) r =
              some ⟨{ v with alive := false }, next⟩ := Function.update_self _ _ _
          obtain ⟨list', hloop, hholds⟩ := ih (hdrop
            ((s.sent r (textCall msg answers (r, v))).markDead r ⟨v, next⟩)
            { v with alive := false } (hl.setVal hcell) hmarked) hreturn' hn'
          refine ⟨list', ?_, ?_⟩
          · dsimp only
            rw [hloop]
            simp [BroadcastState.drop, BroadcastState.markDead, BroadcastState.sent, callsOn,
              removed, halive, hserved, openFds_cons]
          · rw [List.filter_cons_of_neg (by simp [hserved])]
            exact hholds

variable {msg answers}

/-- A call that succeeds has written the whole frame. -/
theorem textCall_wire {c : ClientAddr × ClientFields} (h : served msg answers c = true) :
    (textCall msg answers c).wire = encodeFrame 1 none msg := by
  have hresult : (textCall msg answers c).result = some true :=
    of_decide_eq_true (Bool.and_eq_true_iff.mp h).2
  rw [textCall, sendFrame_wire hresult, wsSendText_bytes]

theorem filter_fst_of_nodup {cells : List (ClientAddr × ClientFields)}
    (hnodup : (cells.map Prod.fst).Nodup) {c : ClientAddr × ClientFields} (hc : c ∈ cells) :
    cells.filter (fun q => q.1 = c.1) = [c] := by
  induction cells with
  | nil => cases hc
  | cons q cells ih =>
    rw [List.map_cons, List.nodup_cons] at hnodup
    rcases List.mem_cons.mp hc with rfl | hc
    · rw [List.filter_cons_of_pos (by simp), List.filter_eq_nil_iff.mpr]
      intro p hp
      have hne : p.1 ≠ c.1 := fun e => hnodup.1 (e ▸ List.mem_map_of_mem hp)
      simpa using hne
    · have hne : q.1 ≠ c.1 := fun e => hnodup.1 (e ▸ List.mem_map_of_mem hc)
      rw [List.filter_cons_of_neg (by simpa using hne), ih hnodup.2 hc]

/-- The calls of one client: there is no other client at its address. -/
theorem callsOn_filter {cells : List (ClientAddr × ClientFields)}
    (hnodup : (cells.map Prod.fst).Nodup) {c : ClientAddr × ClientFields} (hc : c ∈ cells)
    (h : served msg answers c = true) :
    (callsOn msg answers cells).filter (fun call => call.1 = c.1) =
      [(c.1, encodeFrame 1 none msg)] := by
  have halive : c.2.alive = true := (Bool.and_eq_true_iff.mp h).1
  have hmem : c ∈ cells.filter fun q => q.2.alive := List.mem_filter.mpr ⟨hc, halive⟩
  have hone := filter_fst_of_nodup (hnodup.sublist (List.filter_sublist.map Prod.fst)) hmem
  rw [callsOn, List.filter_map]
  show ((cells.filter fun q => q.2.alive).filter fun q => q.1 = c.1).map _ = _
  rw [hone, List.map_singleton, textCall_wire h]

end

/-- **One client's failure is not another's.** The heap holds the clients `cells` in a list. The
first part is `ws_server_broadcast` with whatever each client's `send`s answer, as long as every
call returns: with a bound above the number of clients it comes to its end, and then the list
holds exactly the clients that were alive and whose call succeeded. Each of those has been sent
the whole frame in one call, the calls went once to every client that was alive, in the order of
the list, and the descriptors closed and the records freed are those of the other clients. The
second part is `client_remove`: it takes the record it is called for out of the list, and what
is on the heap besides the list stays as it is. -/
theorem broadcast_delivers (h : ClientList) (cells : List (ClientAddr × ClientFields))
    (hl : h.Holds cells) :
    (∀ (msg : Bytes) (answers : ClientAddr → List SendAnswer), CallsReturn msg answers cells →
      ∀ n, cells.length < n → ∃ s, wsServerBroadcast n h msg answers = some s ∧
        s.list.Holds (cells.filter (served msg answers)) ∧
        (∀ c ∈ cells, served msg answers c = true →
          s.calls.filter (fun call => call.1 = c.1) = [(c.1, encodeFrame 1 none msg)]) ∧
        s.calls.map Prod.fst = (cells.filter fun c => c.2.alive).map Prod.fst ∧
        (s.calls.map Prod.fst).Nodup ∧
        s.closed = openFds (removed msg answers cells) ∧
        s.freed = (removed msg answers cells).map Prod.fst) ∧
    (∀ (c : ClientAddr) (n : Nat), cells.length < n → ∃ h', clientRemove n h c = some h' ∧
      h'.Holds (cells.filter fun q => q.1 ≠ c) ∧
      ∀ r, r ∉ cells.map Prod.fst → h'.nodes r = h.nodes r) := by
  constructor
  · intro msg answers hreturn n hn
    obtain ⟨list', hloop, hholds⟩ := @broadcastLoop_eq msg answers [] cells ⟨h, [], [], []⟩
      hl hreturn n hn
    have hcalls : (callsOn msg answers cells).map Prod.fst =
        (cells.filter fun c => c.2.alive).map Prod.fst := by
      rw [callsOn, List.map_map]
      rfl
    refine ⟨_, hloop, hholds, fun c hc hserved => ?_, ?_, ?_, ?_, ?_⟩
    · exact callsOn_filter hl.nodup hc hserved
    · exact hcalls
    · show ((callsOn msg answers cells).map Prod.fst).Nodup
      rw [hcalls]
      exact hl.nodup.sublist (List.filter_sublist.map Prod.fst)
    · exact List.nil_append _
    · exact List.nil_append _
  · intro c n hn
    obtain ⟨h', hloop, hholds, hframe⟩ := @clientRemoveLoop_eq h [] cells hl c n hn
    exact ⟨h', hloop, hholds, fun r => hframe r List.not_mem_nil⟩

/-- Three clients: a send to the first fails, the second is dead, the third gets the frame. -/
def threeClients : ClientList where
  head := some 1
  nodes
    | 1 => some ⟨⟨5, true⟩, some 2⟩
    | 2 => some ⟨⟨6, false⟩, some 3⟩
    | 3 => some ⟨⟨7, true⟩, none⟩
    | _ => none

theorem broadcast_delivers_third : ∃ s,
    wsServerBroadcast 4 threeClients (ascii "hi")
      (fun c => if c = 3 then [.took 1, .eintr, .took 1, .took 2] else [.failed]) = some s ∧
    s.list.Holds [(3, ⟨7, true⟩)] ∧ s.calls.map Prod.fst = [1, 3] := by
  have hl : threeClients.Holds [(1, ⟨5, true⟩), (2, ⟨6, false⟩), (3, ⟨7, true⟩)] :=
    ⟨⟨rfl, some 2, rfl, rfl, some 3, rfl, rfl, none, rfl, rfl⟩, by decide⟩
  obtain ⟨s, hs, hholds, -, hcalls, -⟩ := (broadcast_delivers _ _ hl).1 (ascii "hi")
    (fun c => if c = 3 then [.took 1, .eintr, .took 1, .took 2] else [.failed])
    (by unfold CallsReturn; decide) 4 (by decide)
  exact ⟨s, hs, hholds, hcalls⟩

end TelemetryTestbed.WebSocket

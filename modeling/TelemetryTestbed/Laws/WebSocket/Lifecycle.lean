import Mathlib.Data.List.Nodup
import TelemetryTestbed.Lib.Ownership
import TelemetryTestbed.WebSocket.Server

/-!
# The life of a connection

The abstract model: a connection is at one `Stage` at a time, and a stage says
which descriptor number it has open, at which address its record lives and
whether the record is on the list. `Consistent` relates a stage for every
connection to the shared store, table by table. Each operation of the store that
is applied at the right stage moves one connection one stage on, keeps every
other one where it is, and commits no fault.

A stage is worth a claim on the tables: the descriptor table has the connection at the number,
the heap has its record at the address, the list has the pointer or has it not. Numbers and
addresses are used again, so the relation is one between all stages and all tables, and every
lemma has to show that the operation of one connection does not touch the claims of another.
-/

namespace TelemetryTestbed.WebSocket

open TelemetryTestbed.Lib

/-- How far the life of a connection has gone, with the descriptor number it has open and the
address of its record while it has them. -/
inductive Stage
  | absent
  | opened (n : Fd)
  | allocated (a : Addr) (n : Fd)
  | listed (a : Addr) (n : Fd)
  /-- `alive` is 0, and the descriptor is still open. -/
  | doomed (a : Addr) (n : Fd)
  | closed (a : Addr)
  | unlinked (a : Addr)
  /-- Nothing is left; `record` tells whether there ever was a record. -/
  | gone (record : Bool)
  deriving DecidableEq

namespace Stage

@[simp] def fd? : Stage → Option Fd
  | opened n | allocated _ n | listed _ n | doomed _ n => some n
  | _ => none

@[simp] def addr? : Stage → Option Addr
  | allocated a _ | listed a _ | doomed a _ | closed a | unlinked a => some a
  | _ => none

@[simp] def onList? : Stage → Option Addr
  | listed a _ | doomed a _ | closed a => some a
  | _ => none

@[simp] def alive : Stage → Bool
  | allocated _ _ | listed _ _ => true
  | _ => false

@[simp] def closes : Stage → Nat
  | closed _ | unlinked _ | gone _ => 1
  | _ => 0

@[simp] def allocs : Stage → Nat
  | absent | opened _ | gone false => 0
  | _ => 1

@[simp] def releases : Stage → Nat
  | gone true => 1
  | _ => 0

/-- One stage on. These are all the ways a life can go: its descriptor is closed once, by `drop`
or by `close`, and its record is released once, behind the closing. -/
inductive Next : Stage → Stage → Prop
  | accept (n : Fd) : Next absent (opened n)
  | calloc (n : Fd) (a : Addr) : Next (opened n) (allocated a n)
  | drop (n : Fd) : Next (opened n) (gone false)
  | register (a : Addr) (n : Fd) : Next (allocated a n) (listed a n)
  | mark (a : Addr) (n : Fd) : Next (listed a n) (doomed a n)
  | close (a : Addr) (n : Fd) : Next (doomed a n) (closed a)
  | remove (a : Addr) : Next (closed a) (unlinked a)
  | free (a : Addr) : Next (unlinked a) (gone true)

theorem addr_of_onList {x : Stage} {a : Addr} (h : x.onList? = some a) :
    x.addr? = some a := by
  cases x <;> first | exact h | cases h

theorem listed_of_alive {x : Stage} {a : Addr} (h : x.onList? = some a)
    (halive : x.alive = true) : ∃ n, x = listed a n := by
  cases x with
  | listed b n =>
    cases h
    exact ⟨n, rfl⟩
  | allocated b n => cases h
  | _ => cases halive

theorem closes_le (x : Stage) : x.closes ≤ 1 := by
  cases x <;> simp only [closes, Nat.le_refl, Nat.zero_le]

theorem releases_le (x : Stage) : x.releases ≤ 1 := by
  cases x with
  | gone record => cases record <;> simp only [releases, Nat.le_refl, Nat.zero_le]
  | _ => exact Nat.zero_le 1

end Stage

def Cell.owner? : Cell → Option ConnId
  | .live c => some c.conn
  | _ => none

/-- The list holds the pointers a view of the connections says, each once. -/
def OnList (view : ConnId → Option Addr) (l : List Ptr) : Prop :=
  l.Nodup ∧ ∀ p, p ∈ l ↔ view p.conn = some p.addr

namespace OnList

variable {view : ConnId → Option Addr} {l : List Ptr} {p : Ptr}

theorem push (h : OnList view l) (hp : view p.conn = none) :
    OnList (Function.update view p.conn (some p.addr)) (p :: l) := by
  have hnot : p ∉ l := fun hmem => by
    rw [(h.2 p).mp hmem] at hp
    cases hp
  refine ⟨List.nodup_cons.mpr ⟨hnot, h.1⟩, fun q => ?_⟩
  rw [List.mem_cons, Function.update_apply]
  by_cases hq : q.conn = p.conn
  · rw [if_pos hq, Option.some.injEq]
    refine ⟨fun hor => ?_, fun haddr => Or.inl (Ptr.ext haddr.symm hq)⟩
    rcases hor with rfl | hmem
    · rfl
    · rw [← hq, (h.2 q).mp hmem] at hp
      cases hp
  · rw [if_neg hq, ← h.2 q]
    exact ⟨fun hor => hor.resolve_left fun e => hq (congrArg Ptr.conn e), Or.inr⟩

/-- Where no two clients share an address, the walk of `client_remove` takes out
its own client and no other. -/
theorem remove (h : OnList view l) (hp : view p.conn = some p.addr)
    (unique : ∀ q ∈ l, q.addr = p.addr → q.conn = p.conn) :
    OnList (Function.update view p.conn none) (l.eraseP fun q => q.addr = p.addr) := by
  have hmem : p ∈ l := (h.2 p).mpr hp
  obtain ⟨b, l₁, l₂, _, hb, hl, herase⟩ :=
    List.exists_of_eraseP (p := fun q : Ptr => decide (q.addr = p.addr)) hmem (decide_eq_true rfl)
  have hbmem : b ∈ l := hl ▸ List.mem_append_right _ List.mem_cons_self
  obtain rfl : b = p := Ptr.ext (of_decide_eq_true hb) (unique b hbmem (of_decide_eq_true hb))
  have hnodup : (l₁ ++ b :: l₂).Nodup := hl ▸ h.1
  rw [herase]
  refine ⟨hnodup.sublist (List.Sublist.append_left (List.sublist_cons_self b l₂) l₁),
    fun q => ?_⟩
  have hview := h.2 q
  rw [hl] at hview
  rw [Function.update_apply]
  by_cases hq : q.conn = b.conn
  · rw [if_pos hq]
    refine ⟨fun hin => ?_, fun e => by cases e⟩
    have hin' : q ∈ l₁ ++ b :: l₂ := by
      rcases List.mem_append.mp hin with h1 | h2
      · exact List.mem_append_left _ h1
      · exact List.mem_append_right _ (List.mem_cons_of_mem _ h2)
    have haddr : q = b := by
      have := hview.mp hin'
      rw [hq, hp] at this
      exact Ptr.ext (Option.some.inj this).symm hq
    rw [haddr] at hin
    have := List.nodup_middle.mp hnodup
    exact absurd hin (List.nodup_cons.mp this).1
  · rw [if_neg hq, ← hview]
    have hne : q ≠ b := fun e => hq (congrArg Ptr.conn e)
    simp only [List.mem_append, List.mem_cons, hne, false_or]

end OnList

/-- The fields of a record at a stage. -/
def Stage.Agrees (x : Stage) (c : WsClient) : Prop :=
  (∀ n, x.fd? = some n → c.fd = n) ∧ c.alive = x.alive

/-- The store is what the stages of the connections say, and nothing has gone
wrong so far. -/
structure Consistent (st : ConnId → Stage) (t : Store) : Prop where
  fds : Owns (fun k => (st k).fd?) t.fds
  heap : Owns (fun k => (st k).addr?) fun a => (t.heap a).owner?
  fields : ∀ a c, t.heap a = .live c → (st c.conn).Agrees c
  clients : OnList (fun k => (st k).onList?) t.clients
  closes : t.closes = fun k => (st k).closes
  allocs : t.allocs = fun k => (st k).allocs
  releases : t.releases = fun k => (st k).releases
  absent : ∀ k, st k = .absent ↔ t.nextConn ≤ k
  clean : t.faults = []

namespace Consistent

variable {st : ConnId → Stage} {t : Store} {p : Ptr} {k : ConnId} {n : Fd} {a : Addr}

/-! ## Reading the store -/

theorem addr_of_live {c : WsClient} (h : Consistent st t) (hc : t.heap a = .live c) :
    (st c.conn).addr? = some a :=
  (h.heap a c.conn).mp (by simp only [hc, Cell.owner?])

theorem fds_of_stage (h : Consistent st t) (hn : (st k).fd? = some n) : t.fds n = some k :=
  (h.fds n k).mpr hn

theorem live (h : Consistent st t) (hp : (st k).addr? = some a) :
    ∃ c, t.heap a = .live c ∧ c.conn = k := by
  have howner : (t.heap a).owner? = some k := (h.heap a k).mpr hp
  cases hc : t.heap a with
  | live c =>
    rw [hc] at howner
    exact ⟨c, rfl, Option.some.inj howner⟩
  | fresh =>
    rw [hc] at howner
    cases howner
  | released c =>
    rw [hc] at howner
    cases howner

theorem touch (h : Consistent st t) (hp : (st p.conn).addr? = some p.addr) :
    t.touch p = t := by
  obtain ⟨c, hc, hconn⟩ := h.live hp
  have hvalid : t.valid p = true := by
    simp only [Store.valid, hc, hconn, decide_true]
  rw [Store.touch, if_pos hvalid]

theorem load_fd (h : Consistent st t) (hp : (st p.conn).addr? = some p.addr)
    (hn : (st p.conn).fd? = some n) : (t.load p).fd = n := by
  obtain ⟨c, hc, hconn⟩ := h.live hp
  simp only [Store.load, hc, Cell.content]
  exact (h.fields _ c hc).1 n (hconn ▸ hn)

theorem load_alive (h : Consistent st t) (hp : (st p.conn).addr? = some p.addr) :
    (t.load p).alive = (st p.conn).alive := by
  obtain ⟨c, hc, hconn⟩ := h.live hp
  simp only [Store.load, hc, Cell.content]
  exact hconn ▸ (h.fields _ c hc).2

theorem onList_of_mem (h : Consistent st t) (hp : p ∈ t.clients) :
    (st p.conn).onList? = some p.addr :=
  (h.clients.2 p).mp hp

theorem addr_of_mem (h : Consistent st t) (hp : p ∈ t.clients) :
    (st p.conn).addr? = some p.addr :=
  Stage.addr_of_onList (h.onList_of_mem hp)

/-- The records the walk of `client_remove` reads are all there. -/
theorem touch_walked (h : Consistent st t) (r : Addr) :
    (Store.walked r t.clients).foldl Store.touch t = t := by
  have hsub : ∀ l : List Ptr, ∀ q ∈ Store.walked r l, q ∈ l := by
    intro l
    induction l with
    | nil => exact fun q hq => hq
    | cons x l ih =>
      intro q hq
      unfold Store.walked at hq
      split at hq
      · exact List.mem_cons.mpr (Or.inl (List.mem_singleton.mp hq))
      · rcases List.mem_cons.mp hq with rfl | hq
        · exact List.mem_cons_self
        · exact List.mem_cons_of_mem _ (ih q hq)
  have hfold : ∀ l : List Ptr, (∀ q ∈ l, q ∈ t.clients) → l.foldl Store.touch t = t := by
    intro l
    induction l with
    | nil => exact fun _ => rfl
    | cons x l ih =>
      intro hl
      rw [List.foldl_cons, h.touch (h.addr_of_mem (hl x List.mem_cons_self))]
      exact ih fun q hq => hl q (List.mem_cons_of_mem _ hq)
  exact hfold _ (hsub t.clients)

/-! ## Moving one connection on -/

theorem absent_move {y : Stage} (h : Consistent st t) (hk : st k ≠ .absent)
    (hy : y ≠ .absent) (j : ConnId) :
    Function.update st k y j = .absent ↔ t.nextConn ≤ j := by
  rw [Function.update_apply]
  by_cases hj : j = k
  · rw [if_pos hj, hj, ← h.absent k]
    exact ⟨fun e => absurd e hy, fun e => absurd e hk⟩
  · rw [if_neg hj]
    exact h.absent j

/-- The records stay as they are, and that of `k` agrees with its new stage. -/
theorem fields_move {y : Stage} (h : Consistent st t)
    (hy : ∀ c, (st k).Agrees c → (st k).addr? ≠ none → y.Agrees c) (b : Addr) (c : WsClient)
    (hc : t.heap b = .live c) : (Function.update st k y c.conn).Agrees c := by
  rw [Function.update_apply]
  by_cases hj : c.conn = k
  · rw [if_pos hj]
    have hagrees := h.fields b c hc
    have haddr := h.addr_of_live hc
    rw [hj] at hagrees haddr
    exact hy c hagrees (by rw [haddr]; exact Option.some_ne_none b)
  · rw [if_neg hj]
    exact h.fields b c hc

/-- The cell at `a`, which no other connection has, is stored to. -/
theorem fields_store {y : Stage} {cell : Cell} (h : Consistent st t)
    (own : ∀ b c, t.heap b = .live c → c.conn = k → b = a)
    (hcell : ∀ c, cell = .live c → c.conn = k ∧ y.Agrees c) (b : Addr) (c : WsClient)
    (hc : Function.update t.heap a cell b = .live c) :
    (Function.update st k y c.conn).Agrees c := by
  rw [Function.update_apply] at hc ⊢
  by_cases hb : b = a
  · rw [if_pos hb] at hc
    obtain ⟨hconn, hagrees⟩ := hcell c hc
    rw [if_pos hconn]
    exact hagrees
  · rw [if_neg hb] at hc
    rw [if_neg fun e => hb (own b c hc e)]
    exact h.fields b c hc

theorem owner_update (heap : Addr → Cell) (a : Addr) (cell : Cell) :
    (fun b => (Function.update heap a cell b).owner?) =
      Function.update (fun b => (heap b).owner?) a cell.owner? :=
  proj_update Cell.owner? heap a cell

/-- A count that goes up with the stage. -/
theorem count_move {f : Stage → Nat} {counts : ConnId → Nat} {y : Stage}
    (h : counts = fun j => f (st j)) (hy : f y = f (st k) + 1) :
    Function.update counts k (counts k + 1) = fun j => f (Function.update st k y j) := by
  rw [proj_update f, hy, h]

/-- An operation that moves `k` on and leaves the counts and the faults alone. -/
theorem move {y : Stage} {t' : Store} (h : Consistent st t)
    (hfds : Owns (fun j => (Function.update st k y j).fd?) t'.fds)
    (hheap : Owns (fun j => (Function.update st k y j).addr?) fun b => (t'.heap b).owner?)
    (hfields : ∀ b c, t'.heap b = .live c → (Function.update st k y c.conn).Agrees c)
    (hclients : OnList (fun j => (Function.update st k y j).onList?) t'.clients)
    (hcounts : y.closes = (st k).closes ∧ y.allocs = (st k).allocs ∧
      y.releases = (st k).releases)
    (hsame : t'.closes = t.closes ∧ t'.allocs = t.allocs ∧ t'.releases = t.releases ∧
      t'.nextConn = t.nextConn ∧ t'.faults = t.faults)
    (hk : st k ≠ .absent) (hy : y ≠ .absent) : Consistent (Function.update st k y) t' := by
  obtain ⟨hcloses, hallocs, hreleases⟩ := hcounts
  obtain ⟨hcloses', hallocs', hreleases', hnext, hfaults⟩ := hsame
  refine ⟨hfds, hheap, hfields, hclients, ?_, ?_, ?_, ?_, hfaults.trans h.clean⟩
  · rw [hcloses', proj_keep hcloses]
    exact h.closes
  · rw [hallocs', proj_keep hallocs]
    exact h.allocs
  · rw [hreleases', proj_keep hreleases]
    exact h.releases
  · rw [hnext]
    exact h.absent_move hk hy

theorem accepted (h : Consistent st t) (hn : t.fds n = none) :
    Consistent (Function.update st t.nextConn (.opened n)) (t.accepted n) := by
  have habs : st t.nextConn = .absent := (h.absent _).mpr (Nat.le_refl _)
  constructor
  · rw [proj_update Stage.fd?]
    exact h.fds.take (by simp only [habs, Stage.fd?]) hn
  · rw [proj_keep (by simp only [habs, Stage.addr?])]
    exact h.heap
  · exact h.fields_move fun c _ hne => absurd (by simp only [habs, Stage.addr?]) hne
  · rw [proj_keep (by simp only [habs, Stage.onList?])]
    exact h.clients
  · rw [proj_keep (by simp only [habs, Stage.closes])]
    exact h.closes
  · rw [proj_keep (by simp only [habs, Stage.allocs])]
    exact h.allocs
  · rw [proj_keep (by simp only [habs, Stage.releases])]
    exact h.releases
  · intro j
    rw [Function.update_apply]
    show _ ↔ t.nextConn + 1 ≤ j
    have := h.absent j
    by_cases hj : j = t.nextConn
    · simp only [hj, if_true, reduceCtorEq, false_iff]
      exact Nat.not_succ_le_self _
    · rw [if_neg hj, this]
      exact ⟨fun hle => Nat.lt_of_le_of_ne hle (Ne.symm hj), Nat.le_of_succ_le⟩
  · exact h.clean

theorem alloc (h : Consistent st t) (hk : st k = .opened n) (ha : ∀ c, t.heap a ≠ .live c) :
    Consistent (Function.update st k (.allocated a n)) (t.alloc a n k) := by
  have howner : (t.heap a).owner? = none := by
    cases hc : t.heap a with
    | live c => exact absurd hc (ha c)
    | fresh => rfl
    | released c => rfl
  constructor
  · rw [proj_keep (by simp only [hk, Stage.fd?])]
    exact h.fds
  · rw [proj_update Stage.addr?]
    show Owns _ (fun b => (Function.update t.heap a (.live ⟨n, true, k⟩) b).owner?)
    rw [owner_update]
    exact h.heap.take (by simp only [hk, Stage.addr?]) howner
  · refine h.fields_store (fun b c hc hconn => ?_) fun c hc => ?_
    · have haddr := h.addr_of_live hc
      rw [hconn, hk] at haddr
      cases haddr
    · cases hc
      exact ⟨rfl, fun m hm => Option.some.inj hm, rfl⟩
  · rw [proj_keep (by simp only [hk, Stage.onList?])]
    exact h.clients
  · rw [proj_keep (by simp only [hk, Stage.closes])]
    exact h.closes
  · exact count_move h.allocs (by simp only [hk, Stage.allocs])
  · rw [proj_keep (by simp only [hk, Stage.releases])]
    exact h.releases
  · exact h.absent_move (by simp only [hk, ne_eq, reduceCtorEq, not_false_eq_true])
      (by simp only [ne_eq, reduceCtorEq, not_false_eq_true])
  · exact h.clean

theorem push (h : Consistent st t) (hk : st p.conn = .allocated p.addr n) :
    Consistent (Function.update st p.conn (.listed p.addr n)) (t.push p) := by
  have htouch : t.touch p = t := h.touch (by simp only [hk, Stage.addr?])
  unfold Store.push
  rw [htouch]
  refine h.move ?_ ?_ ?_ ?_ ?_ ⟨rfl, rfl, rfl, rfl, rfl⟩ ?_ Stage.noConfusion
  · rw [proj_keep (by simp only [hk, Stage.fd?])]
    exact h.fds
  · rw [proj_keep (by simp only [hk, Stage.addr?])]
    exact h.heap
  · apply h.fields_move
    intro c hagrees _
    rw [hk] at hagrees
    exact hagrees
  · rw [proj_update Stage.onList?]
    exact h.clients.push (by simp only [hk, Stage.onList?])
  · simp only [hk, Stage.closes, Stage.allocs, Stage.releases, and_self]
  · simp only [hk, ne_eq, reduceCtorEq, not_false_eq_true]

theorem markDead (h : Consistent st t) (hk : st p.conn = .listed p.addr n) :
    Consistent (Function.update st p.conn (.doomed p.addr n)) (t.markDead p) := by
  have haddr : (st p.conn).addr? = some p.addr := by simp only [hk, Stage.addr?]
  obtain ⟨c, hc, hconn⟩ := h.live haddr
  unfold Store.markDead
  simp only [h.touch haddr, hc, Cell.dead]
  refine h.move ?_ ?_ ?_ ?_ ?_ ⟨rfl, rfl, rfl, rfl, rfl⟩ ?_ Stage.noConfusion
  · rw [proj_keep (by simp only [hk, Stage.fd?])]
    exact h.fds
  · rw [proj_keep (by simp only [hk, Stage.addr?]), owner_update]
    have hsame : (Cell.live { c with alive := false }).owner? = (t.heap p.addr).owner? := by
      simp only [hc, Cell.owner?]
    rw [hsame, Function.update_eq_self p.addr fun b => (t.heap b).owner?]
    exact h.heap
  · refine h.fields_store (fun b d hd hdconn => ?_) fun d hd => ?_
    · have := h.addr_of_live hd
      rw [hdconn, haddr] at this
      exact (Option.some.inj this).symm
    · cases hd
      have hagrees := h.fields _ c hc
      rw [hconn, hk] at hagrees
      exact ⟨hconn, hagrees.1, rfl⟩
  · rw [proj_keep (by simp only [hk, Stage.onList?])]
    exact h.clients
  · simp only [hk, Stage.closes, Stage.allocs, Stage.releases, and_self]
  · simp only [hk, ne_eq, reduceCtorEq, not_false_eq_true]

/-- `close` of the number a connection has open, whichever of the two stages that
end with a close it is at. -/
theorem close {y : Stage} (h : Consistent st t) (hn : (st k).fd? = some n)
    (hnext : (st k).Next y) (hy : y.fd? = none) :
    Consistent (Function.update st k y) (t.close n k) := by
  have hown : t.fds n = some k := (h.fds n k).mpr hn
  have hkeep : y.addr? = (st k).addr? ∧ y.onList? = (st k).onList? ∧
      (y.alive = (st k).alive ∨ (st k).addr? = none) ∧ y.closes = (st k).closes + 1 ∧
      y.allocs = (st k).allocs ∧ y.releases = (st k).releases ∧
      st k ≠ .absent ∧ y ≠ .absent := by
    generalize st k = x at hnext hn
    cases hnext <;> first | (cases hn; done) | (cases hy; done) | simp
  obtain ⟨haddr, hlist, halive, hcloses, hallocs, hreleases, hk, hne⟩ := hkeep
  constructor
  · rw [proj_update Stage.fd?, hy]
    exact h.fds.drop hn
  · rw [proj_keep haddr]
    exact h.heap
  · refine h.fields_move fun c hagrees hsome => ⟨fun m hm => ?_, ?_⟩
    · rw [hy] at hm
      cases hm
    · rw [halive.resolve_right hsome]
      exact hagrees.2
  · rw [proj_keep hlist]
    exact h.clients
  · exact count_move h.closes hcloses
  · rw [proj_keep hallocs]
    exact h.allocs
  · rw [proj_keep hreleases]
    exact h.releases
  · exact h.absent_move hk hne
  · show (if t.fds n = none ∨ t.fds n = some k then t.faults else _) = []
    rw [if_pos (Or.inr hown)]
    exact h.clean

theorem closeOf (h : Consistent st t) (hk : st p.conn = .doomed p.addr n) :
    Consistent (Function.update st p.conn (.closed p.addr)) (t.closeOf p) := by
  have haddr : (st p.conn).addr? = some p.addr := by simp only [hk, Stage.addr?]
  have hn : (st p.conn).fd? = some n := by simp only [hk, Stage.fd?]
  unfold Store.closeOf
  rw [h.touch haddr, h.load_fd haddr hn]
  exact h.close hn (hk ▸ .close p.addr n) rfl

theorem clientRemove (h : Consistent st t) (hk : st p.conn = .closed p.addr) :
    Consistent (Function.update st p.conn (.unlinked p.addr)) (t.clientRemove p) := by
  have haddr : (st p.conn).addr? = some p.addr := by simp only [hk, Stage.addr?]
  unfold Store.clientRemove
  rw [h.touch_walked]
  refine h.move ?_ ?_ ?_ ?_ ?_ ⟨rfl, rfl, rfl, rfl, rfl⟩ ?_ Stage.noConfusion
  · rw [proj_keep (by simp only [hk, Stage.fd?])]
    exact h.fds
  · rw [proj_keep (by simp only [hk, Stage.addr?])]
    exact h.heap
  · apply h.fields_move
    intro c hagrees _
    rw [hk] at hagrees
    exact hagrees
  · rw [proj_update Stage.onList?]
    refine h.clients.remove (by simp only [hk, Stage.onList?]) fun q hq hqaddr => ?_
    exact h.heap.unique (hqaddr ▸ h.addr_of_mem hq) haddr
  · simp only [hk, Stage.closes, Stage.allocs, Stage.releases, and_self]
  · simp only [hk, ne_eq, reduceCtorEq, not_false_eq_true]

theorem free (h : Consistent st t) (hk : st p.conn = .unlinked p.addr) :
    Consistent (Function.update st p.conn (.gone true)) (t.free p) := by
  have haddr : (st p.conn).addr? = some p.addr := by simp only [hk, Stage.addr?]
  unfold Store.free
  simp only [h.touch haddr]
  constructor
  · rw [proj_keep (by simp only [hk, Stage.fd?])]
    exact h.fds
  · rw [proj_update Stage.addr?, owner_update]
    exact h.heap.drop haddr
  · refine h.fields_store (fun b c hc hconn => ?_) fun c hc => by cases hc
    have := h.addr_of_live hc
    rw [hconn, haddr] at this
    exact (Option.some.inj this).symm
  · rw [proj_keep (by simp only [hk, Stage.onList?])]
    exact h.clients
  · rw [proj_keep (by simp only [hk, Stage.closes])]
    exact h.closes
  · rw [proj_keep (by simp only [hk, Stage.allocs])]
    exact h.allocs
  · exact count_move h.releases (by simp only [hk, Stage.releases])
  · exact h.absent_move (by simp only [hk, ne_eq, reduceCtorEq, not_false_eq_true])
      (by simp only [ne_eq, reduceCtorEq, not_false_eq_true])
  · exact h.clean

end Consistent

end TelemetryTestbed.WebSocket

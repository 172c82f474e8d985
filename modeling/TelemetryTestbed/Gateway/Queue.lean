import TelemetryTestbed.Lib.LinkedList
import TelemetryTestbed.Telemetry.Types

/-!
# The sample queue

The FIFO between `on_message` and `writer_thread` as the program keeps it: cells
on the heap, the two end pointers and the two counters. Both operations run under
`q_mu`. `Rep` relates a queue to the list of samples it holds, and each operation
has its one law over that list.

A `Sample` is a `telemetry_state_t` with the number of the message it was built
of, in the order of reception; the number is bookkeeping.

The list has no sentinel: both ends are NULL while there is no cell, which is the only case in
which a push stores to `head`. Each operation is one step here; the statements of both, and
what other threads may see of them, are the subject of `Fifo`.
-/

namespace TelemetryTestbed.Gateway

open TelemetryTestbed.Lib TelemetryTestbed.Telemetry

abbrev Addr := Nat

/-- A `sample_t`: its state, and the number of the message it was made from. -/
structure Sample where
  serial : Nat
  state : TelemetryState
  deriving DecidableEq

/-- `qnode_t`. -/
abbrev QNode := Node Addr Sample

/-- The linked list of `telemetry_gateway`: the nodes on the heap, its two ends, its length and
the largest length it has had. -/
structure Queue where
  nodes : Addr → Option QNode
  head : Option Addr
  tail : Option Addr
  len : Nat
  lenMax : Nat

namespace Queue

def empty : Queue := ⟨fun _ => none, none, none, 0, 0⟩

/-- The critical section of `queue_push`, for the new node at `r`. -/
def push (q : Queue) (r : Addr) (s : Sample) : Queue :=
  let nodes := Function.update q.nodes r (some ⟨s, none⟩)
  let (nodes, head) := match q.tail with
    | some t => (Function.update nodes t ((nodes t).map fun n => { n with next := some r }), q.head)
    | none => (nodes, some r)
  { nodes, head, tail := some r, len := q.len + 1, lenMax := max q.lenMax (q.len + 1) }

/-- The second loop of `queue_pop_batch`: at most `max` samples. -/
def popBatch : Nat → Queue → List Sample × Queue
  | 0, q => ([], q)
  | max + 1, q =>
    match q.head with
    | none => ([], q)
    | some r =>
      match q.nodes r with
      | none => ([], q)
      | some n =>
        let q : Queue :=
          { q with
            nodes := Function.update q.nodes r none
            head := n.next
            tail := if n.next = none then none else q.tail
            len := q.len - 1 }
        let (out, q) := popBatch max q
        (n.val :: out, q)

/-- The samples from a pointer on; the first argument bounds the walk. -/
def walk (nodes : Addr → Option QNode) : Nat → Option Addr → List Sample
  | 0, _ => []
  | n + 1, p =>
    match p.bind nodes with
    | none => []
    | some node => node.val :: walk nodes n node.next

/-- The samples from `q_head` to `q_tail`. -/
def contents (q : Queue) : List Sample := walk q.nodes q.len q.head

/-- The queue holds these samples. -/
def Rep (q : Queue) (l : List Sample) : Prop :=
  ∃ cells : List (Addr × Sample),
    cells.map Prod.snd = l ∧ Linked q.nodes q.head cells ∧ (cells.map Prod.fst).Nodup ∧
      q.tail = cells.getLast?.map Prod.fst ∧ q.len = cells.length

variable {q : Queue} {l : List Sample} {r : Addr}

theorem rep_empty : empty.Rep [] := ⟨[], rfl, rfl, List.nodup_nil, rfl, rfl⟩

theorem Rep.head_eq_none (h : q.Rep l) : q.head = none ↔ l = [] := by
  obtain ⟨cells, rfl, hlinked, _⟩ := h
  constructor
  · intro hhead
    rw [hhead, Linked.nil_iff] at hlinked
    rw [hlinked, List.map_nil]
  · intro hnil
    rw [List.map_eq_nil_iff] at hnil
    rw [hnil] at hlinked
    exact hlinked

theorem Rep.contents (h : q.Rep l) : q.contents = l := by
  obtain ⟨cells, rfl, hlinked, _, _, hlen⟩ := h
  have hwalk : ∀ (cells : List (Addr × Sample)) (p : Option Addr), Linked q.nodes p cells →
      walk q.nodes cells.length p = cells.map Prod.snd := by
    intro cells
    induction cells with
    | nil => exact fun _ _ => rfl
    | cons c cells ih =>
      intro p h
      obtain ⟨rfl, next, hc, hrest⟩ := h
      rw [List.length_cons, walk, Option.bind_some, hc]
      exact congrArg (c.2 :: ·) (ih next hrest)
  rw [Queue.contents, hlen]
  exact hwalk cells q.head hlinked

/-- The list after the new node is linked in, from the head pointer. -/
theorem push_linked {s : Sample} {cells : List (Addr × Sample)}
    (hlinked : Linked q.nodes q.head cells) (hnodup : (cells.map Prod.fst).Nodup)
    (htail : q.tail = cells.getLast?.map Prod.fst) (hr : q.nodes r = none) :
    Linked (q.push r s).nodes (q.push r s).head (cells ++ [(r, s)]) := by
  have hfresh : r ∉ cells.map Prod.fst := hlinked.notMem_of_none hr
  have hnew := hlinked.update (x := some ⟨s, none⟩) hfresh
  rcases List.eq_nil_or_concat' cells with rfl | ⟨front, ⟨t, v⟩, rfl⟩
  · unfold Queue.push
    rw [htail]
    exact ⟨rfl, none, Function.update_self _ _ _, rfl⟩
  · have ht : q.tail = some t := by
      rw [htail, List.getLast?_concat]
      rfl
    have hcell := hnew.last
    unfold Queue.push
    rw [ht]
    simp only [hcell, Option.map_some]
    rw [List.append_assoc]
    exact hnew.append hnodup (Function.update_self _ _ _) hfresh

theorem Rep.push {s : Sample} (h : q.Rep l) (hr : q.nodes r = none) :
    (q.push r s).Rep (l ++ [s]) := by
  obtain ⟨cells, rfl, hlinked, hnodup, htail, hlen⟩ := h
  have hfresh : r ∉ cells.map Prod.fst := hlinked.notMem_of_none hr
  refine ⟨cells ++ [(r, s)], ?_, push_linked hlinked hnodup htail hr, ?_, ?_, ?_⟩
  · rw [List.map_append, List.map_singleton]
  · rw [List.map_append, List.map_singleton]
    refine List.nodup_append.mpr ⟨hnodup, List.nodup_singleton _, ?_⟩
    rintro a ha b hb rfl
    have hr : a = r := List.mem_singleton.mp hb
    exact hfresh (hr ▸ ha)
  · rw [List.getLast?_concat]
    rfl
  · rw [List.length_append, ← hlen]
    rfl

theorem Rep.popBatch (h : q.Rep l) (max : Nat) :
    (Queue.popBatch max q).1 = l.take max ∧ (Queue.popBatch max q).2.Rep (l.drop max) := by
  induction max generalizing q l with
  | zero => exact ⟨rfl, h⟩
  | succ max ih =>
    obtain ⟨cells, rfl, hlinked, hnodup, htail, hlen⟩ := h
    cases cells with
    | nil =>
      have hhead : q.head = none := hlinked
      have hpop : Queue.popBatch (max + 1) q = ([], q) := by
        simp only [Queue.popBatch, hhead]
      rw [hpop]
      exact ⟨rfl, [], rfl, hlinked, hnodup, htail, hlen⟩
    | cons c cells =>
      obtain ⟨r, v⟩ := c
      obtain ⟨hhead, next, hcell, hrest⟩ := hlinked
      rw [List.map_cons, List.nodup_cons] at hnodup
      have hrep : Rep { q with
          nodes := Function.update q.nodes r none
          head := next
          tail := if next = none then none else q.tail
          len := q.len - 1 } (cells.map Prod.snd) := by
        refine ⟨cells, rfl, hrest.update hnodup.1, hnodup.2, ?_, ?_⟩
        · show (if next = none then none else q.tail) = _
          cases cells with
          | nil => exact if_pos hrest
          | cons c cells =>
            rw [if_neg (by rw [hrest.1]; exact Option.some_ne_none _), htail]
            rfl
        · show q.len - 1 = cells.length
          rw [hlen]
          rfl
      obtain ⟨htake, hdrop⟩ := ih hrep
      simp only [Queue.popBatch, hhead, hcell]
      exact ⟨congrArg (v :: ·) htake, hdrop⟩

/-- Popping only frees cells. -/
theorem popBatch_nodes {max : Nat} (hr : q.nodes r = none) :
    (Queue.popBatch max q).2.nodes r = none := by
  induction max generalizing q with
  | zero => exact hr
  | succ max ih =>
    unfold Queue.popBatch
    split
    · exact hr
    · split
      · exact hr
      · apply ih
        show Function.update q.nodes _ none r = none
        rw [Function.update_apply]
        split
        · rfl
        · exact hr

end Queue

end TelemetryTestbed.Gateway

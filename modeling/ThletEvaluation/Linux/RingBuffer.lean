import ThletEvaluation.Lib.Queue
import ThletEvaluation.Linux.RpcQueues

/-!
# The ring buffer of `rpc.rs`

`RingBuffer` at the size and for the records that the two queues use. Any sequence of calls on
a new buffer returns what a queue with room for `RING_BUFFER_SIZE - 1` records returns.
-/

namespace ThletEvaluation.Linux

set_option autoImplicit false

abbrev RingBuffer := Ring KvRpc

namespace RingBuffer

def new : RingBuffer := Ring.new

def push (self : RingBuffer) (rpc : KvRpc) : RingBuffer × Bool :=
  Ring.push RING_BUFFER_SIZE self rpc

def pop (self : RingBuffer) : RingBuffer × Option KvRpc := Ring.pop RING_BUFFER_SIZE self

def call (self : RingBuffer) : QueueCall KvRpc → RingBuffer × QueueResult KvRpc
  | .push rpc => ((push self rpc).1, .pushed (push self rpc).2)
  | .pop => ((pop self).1, .popped (pop self).2)

theorem call_eq (self : RingBuffer) (c : QueueCall KvRpc) :
    call self c = Ring.call RING_BUFFER_SIZE self c := by
  cases c with
  | push rpc => rfl
  | pop => rfl

/-- The state of a buffer and of the queue it stands for. -/
structure Queues (r : RingBuffer) (xs : List KvRpc) : Prop where
  full_iff : ∀ rpc, (push r rpc).2 = false ↔ xs.length = RING_BUFFER_SIZE - 1
  rejected : ∀ rpc, (push r rpc).2 = false → (push r rpc).1 = r
  empty_iff : (pop r).2 = none ↔ xs = []
  oldest : (pop r).2 = xs.head?
  head_lt : r.head < RING_BUFFER_SIZE
  tail_lt : r.tail < RING_BUFFER_SIZE
  filled_iff : ∀ j < RING_BUFFER_SIZE, (r.buffer j).isSome ↔ Ring.InRange r.tail r.head j

section Queues
variable {r : RingBuffer} {xs : List KvRpc}

theorem push_eq_false_iff (h : Ring.Represents RING_BUFFER_SIZE r xs) (rpc : KvRpc) :
    (push r rpc).2 = false ↔ xs.length = RING_BUFFER_SIZE - 1 := by
  have hout : (push r rpc).2 = (Fifo.push (RING_BUFFER_SIZE - 1) xs rpc).2 := (h.push rpc).1
  rw [hout, Fifo.push]
  split
  next hfull => simp [hfull]
  next hroom => simp [hroom]

theorem pop_eq_head? (h : Ring.Represents RING_BUFFER_SIZE r xs) : (pop r).2 = xs.head? := by
  have hout : (pop r).2 = (Fifo.pop xs).2 := h.pop.1
  rw [hout]
  cases xs with
  | nil => rfl
  | cons x xs => rfl

theorem queues_of_represents (h : Ring.Represents RING_BUFFER_SIZE r xs) : Queues r xs where
  full_iff := push_eq_false_iff h
  rejected := by
    intro rpc hfalse
    have hfull := (push_eq_false_iff h rpc).mp hfalse
    rw [push, h.toHolds.push_full hfull]
  empty_iff := by
    rw [pop_eq_head? h]
    exact List.head?_eq_none_iff
  oldest := pop_eq_head? h
  head_lt := h.head_lt
  tail_lt := h.tail_lt
  filled_iff := fun _ hj => h.isSome_iff hj

end Queues

/-- Every sequence of calls returns what the queue returns, and leaves a buffer that stands for
what the queue holds. -/
theorem ringBuffer_refines_fifo (calls : List (QueueCall KvRpc)) :
    (runCalls call new calls).2 = (runCalls (Fifo.call (RING_BUFFER_SIZE - 1)) [] calls).2 ∧
      Queues (runCalls call new calls).1
        (runCalls (Fifo.call (RING_BUFFER_SIZE - 1)) [] calls).1 := by
  have hstep : ∀ (r : RingBuffer) (xs : List KvRpc) (c : QueueCall KvRpc),
      Ring.Represents RING_BUFFER_SIZE r xs →
      (call r c).2 = (Fifo.call (RING_BUFFER_SIZE - 1) xs c).2 ∧
        Ring.Represents RING_BUFFER_SIZE (call r c).1
          (Fifo.call (RING_BUFFER_SIZE - 1) xs c).1 := by
    intro r xs c h
    rw [call_eq]
    exact h.call c
  have hnew : Ring.Represents RING_BUFFER_SIZE new [] := Ring.represents_new (by decide)
  obtain ⟨hout, hrep⟩ := runCalls_refines hstep calls hnew
  exact ⟨hout, queues_of_represents hrep⟩

end RingBuffer

end ThletEvaluation.Linux

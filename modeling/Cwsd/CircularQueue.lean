import Cwsd.BoundedQueue
import Cwsd.CircularBuffer

namespace Cwsd.CircularQueue

open Replay BoundedQueue

variable {α : Type} [Inhabited α]

/-- The member functions that change or read the items, with what they return. -/
def call : Op α → CircularBuffer α → Option α × CircularBuffer α
  | .put item, b => (none, b.put item)
  | .get, b => (some b.get.1, b.get.2)
  | .peek, b => (some b.peek, b)
  | .reset, b => (none, b.reset)

theorem peek_eq (b : CircularBuffer α) : b.peek = b.contents.headD default := by
  cases hempty : b.empty with
  | false =>
      rw [b.contents_cons hempty]
      rfl
  | true =>
      rw [b.empty_iff_contents.mp hempty, CircularBuffer.peek, hempty]
      rfl

omit [Inhabited α] in
theorem full_iff (b : CircularBuffer α) : b.full = true ↔ b.size = b.maxSize := by
  constructor
  · intro hfull
    rw [CircularBuffer.size, if_pos hfull]
  · intro hsize
    by_contra hfull
    exact (b.size_lt (Bool.eq_false_iff.mpr hfull)).ne hsize

structure Holds (capacity : Nat) (b : CircularBuffer α) (q : List α) : Prop where
  contents : b.contents = q
  maxSize : b.maxSize = capacity

theorem holds_call {capacity : Nat} (op : Op α) (b : CircularBuffer α) (q : List α) (h : Holds capacity b q) :
    (call op b).1 = (apply capacity op q).1 ∧ Holds capacity (call op b).2 (apply capacity op q).2 := by
  obtain ⟨rfl, rfl⟩ := h
  have hsize : b.contents.length = b.size := b.contents_length
  cases op with
  | put item =>
      cases hfull : b.full with
      | false =>
          rw [apply_put item (hsize ▸ b.size_lt hfull)]
          exact ⟨rfl, b.contents_put item hfull, rfl⟩
      | true =>
          rw [apply_put_full item (hsize.trans ((full_iff b).mp hfull)) b.maxSize_pos]
          exact ⟨rfl, b.contents_put_full item hfull, rfl⟩
  | get =>
      refine ⟨?_, b.contents_get, ?_⟩
      · rw [call, apply, b.get_fst, peek_eq]
      · rw [call, CircularBuffer.get]
        split <;> rfl
  | peek => exact ⟨congrArg some (peek_eq b), rfl, rfl⟩
  | reset => exact ⟨rfl, b.contents_reset, rfl⟩

/-- The ring is a queue that drops its oldest item: over every sequence of calls it returns what the queue
returns, counts its items, tells empty from full, and keeps both indices below its size. -/
theorem ring_refines_queue (capacity : Nat) (hpos : 0 < capacity) (ops : List (Op α)) :
    let ring := replay call ops (CircularBuffer.ofSize capacity hpos)
    let queue := replay (apply capacity) ops []
    ring.1 = queue.1 ∧ ring.2.contents = queue.2 ∧ ring.2.capacity = capacity ∧
      ring.2.size = queue.2.length ∧ (ring.2.empty = true ↔ queue.2.length = 0) ∧
      (ring.2.full = true ↔ queue.2.length = capacity) ∧
      ring.2.head < ring.2.maxSize ∧ ring.2.tail < ring.2.maxSize := by
  intro ring queue
  have hstart : Holds capacity (CircularBuffer.ofSize capacity hpos) ([] : List α) :=
    ⟨CircularBuffer.contents_ofSize capacity hpos, rfl⟩
  obtain ⟨hout, hcontents, hmax⟩ := replay_simulates holds_call ops hstart
  have hsize : ring.2.size = queue.2.length := by
    rw [← CircularBuffer.contents_length]
    exact congrArg List.length hcontents
  refine ⟨hout, hcontents, hmax, hsize, ?_, ?_, ring.2.head_lt, ring.2.tail_lt⟩
  · rw [CircularBuffer.empty_iff, hsize]
  · rw [full_iff, hsize]
    exact Iff.of_eq (congrArg (queue.2.length = ·) hmax)

theorem oneCell_replaces :
    (replay call [.put 1, .put 2, .peek, .get, .get] (CircularBuffer.ofSize 1 Nat.one_pos : CircularBuffer Nat)).1 =
      [none, none, some 2, some 2, some 0] :=
  (ring_refines_queue 1 Nat.one_pos [.put 1, .put 2, .peek, .get, .get]).1.trans (by decide)

end Cwsd.CircularQueue

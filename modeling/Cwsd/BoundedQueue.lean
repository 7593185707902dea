import Cwsd.Replay

namespace Cwsd.BoundedQueue

open Replay

inductive Op (α : Type)
  | put (item : α)
  | get
  | peek
  | reset
  deriving DecidableEq

section

variable {α : Type} [Inhabited α]

/-- A queue of limited capacity, oldest item first. An item put into a full queue drops the oldest one;
from an empty queue a default is taken. -/
def apply (capacity : Nat) : Op α → List α → Option α × List α
  | .put item, q => (none, if capacity < (q ++ [item]).length then (q ++ [item]).tail else q ++ [item])
  | .get, q => (some (q.headD default), q.tail)
  | .peek, q => (some (q.headD default), q)
  | .reset, _ => (none, [])

theorem apply_put {capacity : Nat} {q : List α} (item : α) (h : q.length < capacity) :
    apply capacity (.put item) q = (none, q ++ [item]) := by
  rw [apply, if_neg]
  rw [List.length_append, List.length_singleton]
  omega

theorem apply_put_full {capacity : Nat} {q : List α} (item : α) (h : q.length = capacity) (hpos : 0 < capacity) :
    apply capacity (.put item) q = (none, q.tail ++ [item]) := by
  have hne : q ≠ [] := by
    rintro rfl
    exact Nat.ne_of_lt hpos h
  rw [apply, if_pos, List.tail_append_of_ne_nil hne]
  rw [List.length_append, List.length_singleton]
  omega

end

end Cwsd.BoundedQueue

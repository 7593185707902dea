import Mathlib.Data.List.Basic
import Mathlib.Data.Nat.ModEq

namespace Cwsd

/-- The fixed-size ring of circular_buffer.h. Empty and full both have the two
indices equal; the flag tells them apart. The index bounds are part of the type. -/
structure CircularBuffer (α : Type) where
  buf : List α
  head : Nat
  tail : Nat
  maxSize : Nat
  full : Bool
  buf_length : buf.length = maxSize
  head_lt : head < maxSize
  tail_lt : tail < maxSize
  full_head : full = true → head = tail
  deriving DecidableEq

namespace CircularBuffer

variable {α : Type} [Inhabited α]

/-- The constructor; the cells of a new array are never read before they are written. -/
def ofSize (size : Nat) (hsize : 0 < size) : CircularBuffer α :=
  { buf := List.replicate size default, head := 0, tail := 0, maxSize := size, full := false,
    buf_length := List.length_replicate, head_lt := hsize, tail_lt := hsize, full_head := by simp }

omit [Inhabited α] in
theorem maxSize_pos (b : CircularBuffer α) : 0 < b.maxSize := Nat.lt_of_le_of_lt (Nat.zero_le _) b.head_lt

def put (b : CircularBuffer α) (item : α) : CircularBuffer α :=
  let tail := if b.full then (b.tail + 1) % b.maxSize else b.tail
  let head := (b.head + 1) % b.maxSize
  { buf := b.buf.set b.head item, head := head, tail := tail, maxSize := b.maxSize,
    full := decide (head = tail),
    buf_length := by simp [b.buf_length],
    head_lt := Nat.mod_lt _ b.maxSize_pos,
    tail_lt := by
      simp only [tail]
      split
      · exact Nat.mod_lt _ b.maxSize_pos
      · exact b.tail_lt,
    full_head := by simp }

def empty (b : CircularBuffer α) : Bool := !b.full && decide (b.head = b.tail)

def get (b : CircularBuffer α) : α × CircularBuffer α :=
  if b.empty then (default, b)
  else (b.buf.getD b.tail default,
    { b with
      tail := (b.tail + 1) % b.maxSize, full := false,
      tail_lt := Nat.mod_lt _ b.maxSize_pos, full_head := by simp })

def peek (b : CircularBuffer α) : α :=
  if b.empty then default else b.buf.getD b.tail default

def reset (b : CircularBuffer α) : CircularBuffer α :=
  { b with head := b.tail, full := false, head_lt := b.tail_lt, full_head := by simp }

def capacity (b : CircularBuffer α) : Nat := b.maxSize

def size (b : CircularBuffer α) : Nat :=
  if b.full then b.maxSize
  else if b.tail ≤ b.head then b.head - b.tail
  else b.maxSize + b.head - b.tail

/-- The abstract queue: the stored items, oldest first. -/
def contents (b : CircularBuffer α) : List α :=
  (List.range b.size).map fun i => b.buf.getD ((b.tail + i) % b.maxSize) default

@[simp] theorem contents_length (b : CircularBuffer α) : b.contents.length = b.size := by
  simp [contents]

omit [Inhabited α] in
theorem size_lt (b : CircularBuffer α) (hfull : b.full = false) : b.size < b.maxSize := by
  have hh := b.head_lt
  have ht := b.tail_lt
  simp only [size, hfull, Bool.false_eq_true, if_false]
  split <;> omega

omit [Inhabited α] in
theorem head_eq (b : CircularBuffer α) : b.head = (b.tail + b.size) % b.maxSize := by
  have hh := b.head_lt
  have ht := b.tail_lt
  unfold size
  split
  · rename_i hfull
    rw [Nat.add_mod_right, Nat.mod_eq_of_lt ht, b.full_head hfull]
  · split
    · rw [show b.tail + (b.head - b.tail) = b.head by omega, Nat.mod_eq_of_lt hh]
    · rw [show b.tail + (b.maxSize + b.head - b.tail) = b.head + b.maxSize by omega,
        Nat.add_mod_right, Nat.mod_eq_of_lt hh]

omit [Inhabited α] in
theorem empty_iff (b : CircularBuffer α) : b.empty = true ↔ b.size = 0 := by
  have hh := b.head_lt
  have ht := b.tail_lt
  cases hf : b.full
  · simp only [empty, size, hf, Bool.not_false, Bool.true_and, decide_eq_true_eq,
      Bool.false_eq_true, if_false]
    split <;> omega
  · simp only [empty, size, hf, Bool.not_true, Bool.false_and, Bool.false_eq_true, if_true,
      false_iff]
    omega

theorem empty_iff_contents (b : CircularBuffer α) : b.empty = true ↔ b.contents = [] := by
  rw [empty_iff, ← contents_length, List.length_eq_zero_iff]

theorem mod_add_ne {n t i j : Nat} (hij : i < j) (hj : j < n) : (t + i) % n ≠ (t + j) % n := by
  intro he
  have hcancel : i % n = j % n := Nat.ModEq.add_left_cancel' t he
  rw [Nat.mod_eq_of_lt (hij.trans hj), Nat.mod_eq_of_lt hj] at hcancel
  exact hij.ne hcancel

omit [Inhabited α] in
theorem size_put (b : CircularBuffer α) (item : α) (hfull : b.full = false) :
    (b.put item).size = b.size + 1 := by
  have hlt := b.size_lt hfull
  have hhead := b.head_eq
  have ht := b.tail_lt
  have hh := b.head_lt
  simp only [size, put, hfull, Bool.false_eq_true, if_false, decide_eq_true_eq] at hlt ⊢
  rcases Nat.lt_or_ge (b.head + 1) b.maxSize with hw | hw
  · rw [Nat.mod_eq_of_lt hw]
    split at hlt <;> split <;> (try split) <;> omega
  · have hb : b.head + 1 = b.maxSize := by omega
    rw [hb, Nat.mod_self]
    split at hlt <;> split <;> (try split) <;> omega

theorem contents_put (b : CircularBuffer α) (item : α) (hfull : b.full = false) :
    (b.put item).contents = b.contents ++ [item] := by
  have hlt := b.size_lt hfull
  unfold contents
  rw [b.size_put item hfull, List.range_succ, List.map_append]
  have ht : (b.put item).tail = b.tail := by simp [put, hfull]
  have hm : (b.put item).maxSize = b.maxSize := rfl
  have hb : (b.put item).buf = b.buf.set b.head item := rfl
  rw [ht, hm, hb]
  congr 1
  · apply List.map_congr_left
    intro i hi
    have hne : b.head ≠ (b.tail + i) % b.maxSize := by
      rw [b.head_eq]
      exact (mod_add_ne (List.mem_range.mp hi) hlt).symm
    simp [List.getD_eq_getElem?_getD, List.getElem?_set_ne hne]
  · have hbound : b.head < b.buf.length := by rw [b.buf_length]; exact b.head_lt
    simp [← b.head_eq, List.getD_eq_getElem?_getD, hbound]

theorem contents_cons (b : CircularBuffer α) (hne : b.empty = false) :
    b.contents = b.peek :: (b.get).2.contents := by
  have hs : b.size ≠ 0 := by
    intro h
    rw [(b.empty_iff).mpr h] at hne
    cases hne
  have hsize : (b.get).2.size + 1 = b.size := by
    have hh := b.head_lt
    have ht := b.tail_lt
    have hfull := b.full_head
    simp only [get, hne, Bool.false_eq_true, if_false, size] at hs ⊢
    rcases Nat.lt_or_ge (b.tail + 1) b.maxSize with hw | hw
    · rw [Nat.mod_eq_of_lt hw]
      split at hs
      · rename_i hf
        have := hfull hf
        split <;> omega
      · split at hs <;> split <;> omega
    · have hb : b.tail + 1 = b.maxSize := by omega
      rw [hb, Nat.mod_self]
      split at hs
      · rename_i hf
        have := hfull hf
        split <;> omega
      · split at hs <;> split <;> omega
  have htail : (b.get).2.tail = (b.tail + 1) % b.maxSize := by simp [get, hne]
  have hmax : (b.get).2.maxSize = b.maxSize := by simp [get, hne]
  have hbuf : (b.get).2.buf = b.buf := by simp [get, hne]
  unfold contents
  rw [← hsize, List.range_succ_eq_map, List.map_cons, List.map_map, htail, hmax, hbuf]
  congr 1
  · simp [peek, hne, Nat.mod_eq_of_lt b.tail_lt]
  · apply List.map_congr_left
    intro i _
    simp only [Function.comp, Nat.mod_add_mod]
    congr 2
    omega

theorem get_fst (b : CircularBuffer α) : (b.get).1 = b.peek := by
  unfold get peek
  split <;> rfl

theorem contents_get (b : CircularBuffer α) : (b.get).2.contents = b.contents.tail := by
  cases he : b.empty
  · rw [b.contents_cons he, List.tail_cons]
  · have hc := (b.empty_iff_contents).mp he
    simp [get, he, hc]

/-- A put into a full buffer drops the oldest item first. -/
theorem put_full (b : CircularBuffer α) (item : α) (hfull : b.full = true) : b.put item = b.get.2.put item := by
  have hhead := b.full_head hfull
  simp [put, get, empty, hfull, hhead]

theorem contents_put_full (b : CircularBuffer α) (item : α) (hfull : b.full = true) :
    (b.put item).contents = b.contents.tail ++ [item] := by
  have hget : b.get.2.full = false := by simp [get, empty, hfull]
  rw [b.put_full item hfull, contents_put _ item hget, contents_get]

@[simp] theorem contents_reset (b : CircularBuffer α) : b.reset.contents = [] := by
  rw [← empty_iff_contents]
  simp [empty, reset]

@[simp] theorem contents_ofSize (size : Nat) (hsize : 0 < size) :
    (ofSize size hsize : CircularBuffer α).contents = [] := by
  rw [← empty_iff_contents]
  simp [empty, ofSize]

end CircularBuffer

end Cwsd

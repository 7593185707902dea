import Mathlib.Data.List.Infix
import Mathlib.Tactic.Common

namespace Cwsd.Slots

variable {α : Type}

/-- One of the equal parts that a memory is divided into. -/
def slot (size : Nat) (memory : List α) (n : Nat) : List α := (memory.drop (n * size)).take size

theorem length_slot {size n slots : Nat} {memory : List α} (hlength : memory.length = slots * size) (hn : n < slots) :
    (slot size memory n).length = size := by
  have hle := Nat.mul_le_mul_right size (Nat.succ_le_of_lt hn)
  rw [Nat.succ_mul, ← hlength] at hle
  rw [slot, List.length_take, List.length_drop]
  omega

theorem drop_eq (size : Nat) (memory : List α) (n : Nat) :
    memory.drop (n * size) = slot size memory n ++ (memory.drop (n * size)).drop size :=
  (List.take_append_drop size _).symm

theorem slot_set (size : Nat) (memory : List α) (n i : Nat) (c : α) :
    slot size (memory.set (n * size + i) c) n = (slot size memory n).set i c := by
  have hbehind : ¬ n * size + i < n * size := by omega
  rw [slot, List.drop_set, if_neg hbehind, Nat.add_sub_cancel_left, List.take_set, slot]

theorem slot_set_ne {size m n i : Nat} (hne : m ≠ n) (hi : i < size) (memory : List α) (c : α) :
    slot size (memory.set (n * size + i) c) m = slot size memory m := by
  rcases Nat.lt_or_gt_of_ne hne with hlt | hgt
  · have hle := Nat.mul_le_mul_right size (Nat.succ_le_of_lt hlt)
    rw [Nat.succ_mul] at hle
    have hbehind : ¬ n * size + i < m * size := by omega
    rw [slot, List.drop_set, if_neg hbehind, List.take_set_of_le (by omega), slot]
  · have hle := Nat.mul_le_mul_right size (Nat.succ_le_of_lt hgt)
    rw [Nat.succ_mul] at hle
    have hbefore : n * size + i < m * size := by omega
    rw [slot, List.drop_set, if_pos hbefore, slot]

/-- The cells hold a text that ends before the first stop. -/
def Holds (stop : α) (cells text : List α) : Prop := stop ∉ text ∧ ∃ rest, cells = text ++ stop :: rest

theorem Holds.takeWhile [DecidableEq α] {stop : α} {cells text : List α} (h : Holds stop cells text)
    (behind : List α) : (cells ++ behind).takeWhile (· ≠ stop) = text := by
  obtain ⟨hstop, rest, rfl⟩ := h
  have hne : ∀ c ∈ text, decide (c ≠ stop) = true := by
    intro c hc
    rw [decide_eq_true_eq]
    rintro rfl
    exact hstop hc
  rw [List.append_assoc, List.takeWhile_append_of_pos hne, List.cons_append,
    List.takeWhile_cons_of_neg (by rw [decide_eq_true_eq, not_not]), List.append_nil]

theorem foldl_set (text cells : List α) (h : text.length ≤ cells.length) :
    text.zipIdx.foldl (fun cells c => cells.set c.2 c.1) cells = text ++ cells.drop text.length := by
  have hfrom (done : List α) (text cells : List α) (h : text.length ≤ cells.length) :
      (text.zipIdx done.length).foldl (fun cells c => cells.set c.2 c.1) (done ++ cells) =
        done ++ text ++ cells.drop text.length := by
    induction text generalizing done cells with
    | nil => rw [List.zipIdx_nil, List.foldl_nil, List.append_nil, List.length_nil, List.drop_zero]
    | cons c text ih =>
        cases cells with
        | nil => cases h
        | cons d cells =>
            have hnext := ih (done ++ [c]) cells (Nat.le_of_succ_le_succ h)
            rw [List.length_append, List.length_singleton] at hnext
            rw [List.zipIdx_cons, List.foldl_cons, List.set_append_right _ _ (Nat.le_refl _), Nat.sub_self,
              List.set_cons_zero, List.append_cons done c cells, hnext, List.append_cons done c text, List.length_cons,
              List.drop_succ_cons]
  exact hfrom [] text cells h

theorem start_kept {start text cells : List α} (hstart : start <+: cells) (htext : text.take start.length <+: cells) :
    start <+: text ++ cells.drop text.length := by
  rcases Nat.le_total text.length start.length with hle | hle
  · rw [List.take_of_length_le hle] at htext
    obtain ⟨rest, rfl⟩ := htext
    rwa [List.drop_left]
  · have hlength : start.length ≤ (text.take start.length).length := by
      rw [List.length_take]
      exact Nat.le_min.mpr ⟨Nat.le_refl _, hle⟩
    have hsame := List.prefix_of_prefix_length_le hstart htext hlength
    exact (hsame.trans (List.take_prefix _ _)).trans (List.prefix_append _ _)

end Cwsd.Slots

import Mathlib.Data.List.Basic

namespace Cwsd.HighWater

/-- Deduplication by a high-water mark: an item passes when its key is above the
mark, and raises it. -/
def above {α : Type} (key : α → Nat) : Nat → List α → List α
  | _, [] => []
  | mark, x :: xs => if key x ≤ mark then above key mark xs else x :: above key (key x) xs

def markAfter {α : Type} (key : α → Nat) : Nat → List α → Nat
  | mark, [] => mark
  | mark, x :: xs => if key x ≤ mark then markAfter key mark xs else markAfter key (key x) xs

def top {α : Type} (key : α → Nat) (xs : List α) : Nat := (xs.getLast?.map key).getD 0

section

variable {α : Type} {key : α → Nat}

theorem above_stale {mark : Nat} (xs ys : List α) (h : ∀ x ∈ xs, key x ≤ mark) :
    above key mark (xs ++ ys) = above key mark ys ∧ markAfter key mark (xs ++ ys) = markAfter key mark ys := by
  induction xs with
  | nil => exact ⟨rfl, rfl⟩
  | cons x xs ih =>
      have hx := h x (by simp)
      simpa only [List.cons_append, above, markAfter, hx, if_true] using ih fun y hy => h y (by simp [hy])

theorem above_new {mark : Nat} (xs : List α) (hsorted : xs.Pairwise fun a b => key a < key b)
    (h : ∀ x ∈ xs, mark < key x) :
    above key mark xs = xs ∧ markAfter key mark xs = (xs.getLast?.map key).getD mark := by
  induction xs generalizing mark with
  | nil => exact ⟨rfl, rfl⟩
  | cons x xs ih =>
      have hx : ¬ key x ≤ mark := Nat.not_le.mpr (h x (by simp))
      obtain ⟨hhead, htail⟩ := List.pairwise_cons.mp hsorted
      obtain ⟨habove, hmark⟩ := ih htail hhead
      simp only [above, markAfter, hx, if_false, habove, hmark, true_and]
      cases xs with
      | nil => rfl
      | cons y ys =>
          obtain ⟨z, hz⟩ : ∃ z, (y :: ys).getLast? = some z := Option.isSome_iff_exists.mp (by simp)
          rw [List.getLast?_cons_cons, hz]
          rfl

theorem above_sorted (mark : Nat) (xs : List α) :
    (∀ x ∈ above key mark xs, mark < key x ∧ x ∈ xs) ∧
      (above key mark xs).Pairwise fun a b => key a < key b := by
  induction xs generalizing mark with
  | nil => simp [above]
  | cons x xs ih =>
      simp only [above]
      split
      · obtain ⟨hmem, hsorted⟩ := ih mark
        exact ⟨fun y hy => ⟨(hmem y hy).1, List.mem_cons_of_mem x (hmem y hy).2⟩, hsorted⟩
      · rename_i hx
        obtain ⟨hmem, hsorted⟩ := ih (key x)
        refine ⟨?_, List.pairwise_cons.mpr ⟨fun y hy => (hmem y hy).1, hsorted⟩⟩
        intro y hy
        rcases List.mem_cons.mp hy with rfl | hy
        · exact ⟨Nat.not_le.mp hx, List.mem_cons_self⟩
        · exact ⟨Nat.lt_trans (Nat.not_le.mp hx) (hmem y hy).1, List.mem_cons_of_mem x (hmem y hy).2⟩

theorem key_le_top {xs : List α} (hsorted : xs.Pairwise fun a b => key a < key b) :
    ∀ x ∈ xs, key x ≤ top key xs := by
  induction xs with
  | nil => simp
  | cons x xs ih =>
      obtain ⟨hhead, htail⟩ := List.pairwise_cons.mp hsorted
      cases xs with
      | nil => simp [top]
      | cons y ys =>
          have htop : top key (x :: y :: ys) = top key (y :: ys) := by simp [top, List.getLast?_cons_cons]
          intro z hz
          rw [htop]
          rcases List.mem_cons.mp hz with rfl | hz
          · exact Nat.le_of_lt (Nat.lt_of_lt_of_le (hhead y (by simp)) (ih htail y (by simp)))
          · exact ih htail z hz

theorem top_lt {xs ys : List α} (hsorted : (xs ++ ys).Pairwise fun a b => key a < key b)
    (hpos : ∀ y ∈ ys, 0 < key y) : ∀ y ∈ ys, top key xs < key y := by
  intro y hy
  rw [top]
  cases hlast : xs.getLast? with
  | none => exact hpos y hy
  | some x => exact (List.pairwise_append.mp hsorted).2.2 x (List.mem_of_getLast? hlast) y hy

theorem top_append (xs ys : List α) : top key (xs ++ ys) = (ys.getLast?.map key).getD (top key xs) := by
  rw [top, top, List.getLast?_append]
  cases ys.getLast? <;> rfl

/-- A receiver that has admitted the first n items of an increasing history admits
of any window of it, as long as the window starts no later than item n, exactly
the items after the first n. -/
theorem above_window {xs : List α} (hsorted : xs.Pairwise fun a b => key a < key b)
    (hpos : ∀ x ∈ xs, 0 < key x) (n m j : Nat) (hj : j ≤ n) :
    above key (top key (xs.take n)) ((xs.take m).drop j) = (xs.take m).drop n ∧
      markAfter key (top key (xs.take n)) ((xs.take m).drop j) = top key (xs.take (max n m)) := by
  have hsplit : (xs.take m).drop j = ((xs.take m).take n).drop j ++ (xs.take m).drop n := by
    rw [List.drop_take (i := j) (j := n), ← Nat.add_sub_of_le hj, ← List.drop_drop,
      Nat.add_sub_cancel_left, List.take_append_drop]
  have hstale : ∀ x ∈ ((xs.take m).take n).drop j, key x ≤ top key (xs.take n) := by
    intro x hx
    refine key_le_top (hsorted.sublist (List.take_sublist _ _)) x ?_
    have hmem := List.mem_of_mem_drop hx
    rw [List.take_take, Nat.min_comm, ← List.take_take] at hmem
    exact List.mem_of_mem_take hmem
  have hnew : ∀ x ∈ (xs.take m).drop n, top key (xs.take n) < key x := by
    intro x hx
    rw [List.drop_take] at hx
    have hcut : (xs.take n ++ xs.drop n).Pairwise fun a b => key a < key b := by
      rwa [List.take_append_drop]
    exact top_lt hcut (fun y hy => hpos y (List.mem_of_mem_drop hy)) x (List.mem_of_mem_take hx)
  have hsub : ((xs.take m).drop n).Pairwise fun a b => key a < key b :=
    hsorted.sublist ((List.drop_sublist _ _).trans (List.take_sublist _ _))
  obtain ⟨habove, hmark⟩ := above_stale _ ((xs.take m).drop n) hstale
  obtain ⟨habove', hmark'⟩ := above_new _ hsub hnew
  rw [hsplit, habove, hmark, habove', hmark', ← top_append]
  refine ⟨rfl, congrArg (top key) ?_⟩
  rcases Nat.le_total m n with hle | hle
  · rw [Nat.max_eq_left hle, List.drop_eq_nil_of_le, List.append_nil]
    exact Nat.le_trans (List.length_take_le _ _) hle
  · have htake : xs.take n = (xs.take m).take n := by rw [List.take_take, Nat.min_eq_left hle]
    rw [Nat.max_eq_right hle, htake, List.take_append_drop]

end

end Cwsd.HighWater

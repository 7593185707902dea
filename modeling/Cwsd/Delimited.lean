import Mathlib.Data.List.Infix
import Mathlib.Tactic.Common

namespace Cwsd.Delimited

variable {α : Type}

/-- A text cut at the delimiter from left to right: no piece reaches past the first place where the
delimiter starts. -/
inductive Cut (delimiter : List α) : List α → List (List α) → Prop
  | last (piece : List α) : ¬ delimiter <:+: piece → Cut delimiter piece [piece]
  | next {text piece rest : List α} {pieces : List (List α)} :
      text = piece ++ (delimiter ++ rest) → (∀ m < piece.length, ¬ delimiter <+: text.drop m) →
      Cut delimiter rest pieces → Cut delimiter text (piece :: pieces)

namespace Cut

variable {delimiter text : List α} {pieces : List (List α)}

theorem ne_nil (h : Cut delimiter text pieces) : pieces ≠ [] := by
  cases h with
  | last piece => exact List.cons_ne_nil _ _
  | next => exact List.cons_ne_nil _ _

theorem intercalate (h : Cut delimiter text pieces) : delimiter.intercalate pieces = text := by
  induction h with
  | last piece => exact List.intercalate_singleton
  | next htext _ hrest ih => rw [List.intercalate_cons_of_ne_nil hrest.ne_nil, ih, htext, List.append_assoc]

theorem not_infix (h : Cut delimiter text pieces) (hne : delimiter ≠ []) :
    ∀ piece ∈ pieces, ¬ delimiter <:+: piece := by
  induction h with
  | last piece hlast => rwa [List.forall_mem_singleton]
  | next htext hfirst _ ih =>
      subst htext
      rw [List.forall_mem_cons]
      refine ⟨?_, ih⟩
      rintro ⟨before, after, rfl⟩
      have hpos := List.length_pos_of_ne_nil hne
      apply hfirst before.length
      · rw [List.length_append, List.length_append]
        omega
      · rw [List.append_assoc, List.append_assoc, List.drop_left]
        exact List.prefix_append _ _

theorem length_mul_le (h : Cut delimiter text pieces) :
    (pieces.length - 1) * delimiter.length ≤ text.length := by
  induction h with
  | last piece => exact (Nat.zero_mul _).le.trans (Nat.zero_le _)
  | @next text piece rest pieces htext _ hrest ih =>
      have hpos := List.length_pos_of_ne_nil hrest.ne_nil
      have hmul := Nat.succ_mul (pieces.length - 1) delimiter.length
      rw [Nat.succ_eq_add_one, Nat.sub_add_cancel hpos] at hmul
      rw [List.length_cons, Nat.add_sub_cancel, hmul, htext, List.length_append, List.length_append]
      omega

end Cut

section

variable [DecidableEq α]

/-- How often the delimiter is met by a reader that steps over each one it meets. -/
def scan (delimiter : List α) : Nat → List α → Nat
  | _, [] => 0
  | skip + 1, _ :: text => scan delimiter skip text
  | 0, c :: text =>
      if delimiter.isPrefixOf (c :: text) then scan delimiter (delimiter.length - 1) text + 1 else scan delimiter 0 text

/-- The occurrences of the delimiter that do not overlap, from left to right. -/
def occurrences (delimiter text : List α) : Nat := scan delimiter 0 text

theorem scan_skip (delimiter text : List α) (skip : Nat) :
    scan delimiter skip text = occurrences delimiter (text.drop skip) := by
  induction skip generalizing text with
  | zero => rfl
  | succ skip ih =>
      cases text with
      | nil => rfl
      | cons c text =>
          rw [scan, ih, List.drop_succ_cons]

theorem occurrences_delimiter {delimiter : List α} (hne : delimiter ≠ []) (rest : List α) :
    occurrences delimiter (delimiter ++ rest) = occurrences delimiter rest + 1 := by
  cases delimiter with
  | nil => exact absurd rfl hne
  | cons c delimiter =>
      have hpre : (c :: delimiter).isPrefixOf (c :: (delimiter ++ rest)) = true :=
        List.isPrefixOf_iff_prefix.mpr (List.prefix_append _ _)
      rw [occurrences, List.cons_append, scan, if_pos hpre, scan_skip, List.length_cons, Nat.add_sub_cancel,
        List.drop_left]

theorem occurrences_cons {delimiter text : List α} {c : α} (h : ¬ delimiter <+: c :: text) :
    occurrences delimiter (c :: text) = occurrences delimiter text := by
  rw [occurrences, scan, if_neg (mt List.isPrefixOf_iff_prefix.mp h), occurrences]

theorem occurrences_append {delimiter piece rest : List α}
    (h : ∀ m < piece.length, ¬ delimiter <+: (piece ++ rest).drop m) :
    occurrences delimiter (piece ++ rest) = occurrences delimiter rest := by
  induction piece with
  | nil => rfl
  | cons c piece ih =>
      have hhead : ¬ delimiter <+: c :: (piece ++ rest) := h 0 (Nat.zero_lt_succ _)
      rw [List.cons_append, occurrences_cons hhead]
      exact ih fun m hm => h (m + 1) (Nat.succ_lt_succ hm)

theorem occurrences_eq_zero {delimiter text : List α} (h : ¬ delimiter <:+: text) :
    occurrences delimiter text = 0 := by
  have hnone := @occurrences_append α _ delimiter text []
  rw [List.append_nil] at hnone
  exact hnone fun m _ hpre => h (hpre.isInfix.trans (List.drop_suffix m text).isInfix)

theorem occurrences_singleton (c : α) (text : List α) : occurrences [c] text = text.count c := by
  induction text with
  | nil => rfl
  | cons b text ih =>
      cases eq_or_ne c b with
      | inl heq =>
          have hcut := @occurrences_delimiter α _ [c] (List.cons_ne_nil c []) text
          rw [List.singleton_append, ih] at hcut
          rw [← heq, hcut, List.count_cons_self]
      | inr hne =>
          have hnot : ¬ [c] <+: b :: text := fun h => hne (List.cons_prefix_cons.mp h).1
          rw [occurrences_cons hnot, ih, List.count_cons_of_ne hne.symm]

theorem Cut.length_eq {delimiter text : List α} {pieces : List (List α)} (h : Cut delimiter text pieces)
    (hne : delimiter ≠ []) : pieces.length = occurrences delimiter text + 1 := by
  induction h with
  | last piece hlast => rw [occurrences_eq_zero hlast, List.length_singleton]
  | next htext hfirst _ ih =>
      subst htext
      rw [occurrences_append hfirst, occurrences_delimiter hne, List.length_cons, ih]

end

end Cwsd.Delimited

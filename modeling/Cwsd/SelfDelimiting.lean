import Mathlib.Data.List.Basic
import Mathlib.Tactic.Common

namespace Cwsd.SelfDelimiting

variable {α γ : Type}

/-- A reader knows where the code of a valid value ends, and which value it is, whatever comes after it. -/
def Delimits (valid : α → Prop) (code : α → List γ) : Prop :=
  ∀ ⦃a b : α⦄ ⦃rest rest' : List γ⦄, valid a → valid b → code a ++ rest = code b ++ rest' → a = b ∧ rest = rest'

variable {valid : α → Prop} {code : α → List γ}

theorem Delimits.mono {stronger : α → Prop} (h : Delimits valid code) (himp : ∀ a, stronger a → valid a) :
    Delimits stronger code :=
  fun _ _ _ _ ha hb heq => h (himp _ ha) (himp _ hb) heq

theorem delimits_mark (mark : γ) (hinj : ∀ a b, valid a → valid b → code a = code b → a = b)
    (hmark : ∀ a, valid a → mark ∉ code a) : Delimits valid fun a => code a ++ [mark] := by
  intro a b rest rest' ha hb h
  rw [List.append_assoc, List.append_assoc, List.singleton_append, List.singleton_append] at h
  -- the shorter of the two texts would have the mark of the other one behind it
  have hlen : (code a).length = (code b).length := by
    have hshort {x y : List γ} {r r' : List γ} (hy : mark ∉ y) (hxy : x ++ mark :: r = y ++ mark :: r') :
        y.length ≤ x.length := by
      by_contra hlt
      have hget := congrArg (fun l => l[x.length]?) hxy
      simp only [List.getElem?_append_left (Nat.lt_of_not_le hlt),
        List.getElem?_append_right (Nat.le_refl _), Nat.sub_self, List.getElem?_cons_zero] at hget
      exact hy (List.mem_of_getElem? hget.symm)
    exact Nat.le_antisymm (hshort (hmark a ha) h.symm) (hshort (hmark b hb) h)
  obtain ⟨hcode, hrest⟩ := List.append_inj h hlen
  exact ⟨hinj a b ha hb hcode, List.tail_eq_of_cons_eq hrest⟩

/-- A list with a mark after it that no element of the list can start with. -/
theorem Delimits.until (h : Delimits valid code) {mark : List γ}
    (hmark : ∀ ⦃a rest rest'⦄, valid a → code a ++ rest ≠ mark ++ rest') :
    Delimits (fun l : List α => ∀ a ∈ l, valid a) fun l => l.flatMap code ++ mark := by
  have hcons (a : α) (l : List α) (rest : List γ) :
      ((a :: l).flatMap code ++ mark) ++ rest = code a ++ ((l.flatMap code ++ mark) ++ rest) := by
    rw [List.flatMap_cons, List.append_assoc, List.append_assoc, List.append_assoc]
  intro l
  induction l with
  | nil =>
      intro l' rest rest' _ hl' heq
      cases l' with
      | nil => exact ⟨rfl, List.append_cancel_left heq⟩
      | cons b l' =>
          dsimp only at heq
          rw [hcons] at heq
          exact absurd heq.symm (hmark (hl' b List.mem_cons_self))
  | cons a l ih =>
      intro l' rest rest' hl hl' heq
      dsimp only at heq
      rw [hcons] at heq
      cases l' with
      | nil => exact absurd heq (hmark (hl a List.mem_cons_self))
      | cons b l' =>
          rw [hcons] at heq
          obtain ⟨rfl, hnext⟩ := h (hl a List.mem_cons_self) (hl' b List.mem_cons_self) heq
          obtain ⟨rfl, hrest⟩ := ih (fun a ha => hl a (List.mem_cons_of_mem _ ha))
            (fun b hb => hl' b (List.mem_cons_of_mem _ hb)) hnext
          exact ⟨rfl, hrest⟩

theorem delimits_sequence {κ : Type} {valid : κ → α → Prop} (h : ∀ k, Delimits (valid k) code) (ks : List κ) :
    Delimits (fun l : List α => List.Forall₂ valid ks l) fun l => l.flatMap code := by
  intro l l' rest rest' hl hl' heq
  induction hl generalizing l' with
  | nil =>
      cases hl'
      exact ⟨rfl, heq⟩
  | @cons k a ks l ha _ ih =>
      cases hl' with
      | cons hb hl' =>
          dsimp only at heq
          rw [List.flatMap_cons, List.flatMap_cons, List.append_assoc, List.append_assoc] at heq
          obtain ⟨rfl, hnext⟩ := h k ha hb heq
          obtain ⟨rfl, hrest⟩ := ih hl' hnext
          exact ⟨rfl, hrest⟩

end Cwsd.SelfDelimiting

import Mathlib.Data.List.Basic
import Mathlib.Data.Nat.ModEq
import Mathlib.Order.Basic

namespace Cwsd.Wraparound

/-- The test fires has, after every number of times, come true exactly when due has. -/
def Timely (due fires : Nat → Prop) (times : List Nat) : Prop :=
  ∀ n, (∃ τ ∈ times.take n, fires τ) ↔ ∃ τ ∈ times.take n, due τ

theorem timely_cons_of_due {due fires : Nat → Prop} {τ : Nat} {times : List Nat} (h : due τ) :
    Timely due fires (τ :: times) ↔ fires τ := by
  constructor
  · intro htimely
    obtain ⟨σ, hσ, hfires⟩ := (htimely 1).mpr ⟨τ, List.mem_singleton.mpr rfl, h⟩
    rwa [List.mem_singleton.mp hσ] at hfires
  · intro hfires n
    cases n with
    | zero => simp
    | succ n => exact ⟨fun _ => ⟨τ, List.mem_cons_self, h⟩, fun _ => ⟨τ, List.mem_cons_self, hfires⟩⟩

theorem timely_cons_of_not_due {due fires : Nat → Prop} {τ : Nat} {times : List Nat} (h : ¬ due τ) :
    Timely due fires (τ :: times) ↔ ¬ fires τ ∧ Timely due fires times := by
  have htake (n : Nat) (p : Nat → Prop) (hp : ¬ p τ) :
      (∃ σ ∈ (τ :: times).take (n + 1), p σ) ↔ ∃ σ ∈ times.take n, p σ := by
    simp only [List.take_succ_cons, List.mem_cons, exists_eq_or_imp, hp, false_or]
  constructor
  · intro htimely
    have hquiet : ¬ fires τ := by
      intro hfires
      obtain ⟨σ, hσ, hdue⟩ := (htimely 1).mp ⟨τ, List.mem_singleton.mpr rfl, hfires⟩
      rw [List.mem_singleton.mp hσ] at hdue
      exact h hdue
    refine ⟨hquiet, fun n => ?_⟩
    rw [← htake n fires hquiet, ← htake n due h]
    exact htimely (n + 1)
  · rintro ⟨hquiet, htimely⟩ n
    cases n with
    | zero => simp
    | succ n =>
        rw [htake n fires hquiet, htake n due h]
        exact htimely n

/-- Along times that do not decrease, a test is timely exactly when it is false at the times that
are not due and true at the first that is. -/
theorem timely_iff {due fires : Nat → Prop} [DecidablePred due] (hmono : ∀ {σ τ}, due σ → σ ≤ τ → due τ)
    {times : List Nat} (hsorted : times.Pairwise (· ≤ ·)) :
    Timely due fires times ↔
      (∀ τ ∈ times, ¬ due τ → ¬ fires τ) ∧ ∀ τ ∈ times.find? (due ·), fires τ := by
  induction times with
  | nil => simp [Timely]
  | cons τ times ih =>
      obtain ⟨hle, hrest⟩ := List.pairwise_cons.mp hsorted
      by_cases hdue : due τ
      · rw [timely_cons_of_due hdue]
        have hall : ∀ σ ∈ τ :: times, due σ := by
          intro σ hσ
          rcases List.mem_cons.mp hσ with rfl | hσ
          · exact hdue
          · exact hmono hdue (hle σ hσ)
        rw [List.find?_cons_of_pos (by simpa using hdue)]
        constructor
        · intro hfires
          refine ⟨fun σ hσ hnot => absurd (hall σ hσ) hnot, ?_⟩
          rintro σ ⟨⟩
          exact hfires
        · exact fun h => h.2 τ rfl
      · rw [timely_cons_of_not_due hdue, ih hrest, List.find?_cons_of_neg (by simpa using hdue)]
        constructor
        · rintro ⟨hquiet, hothers, hfirst⟩
          refine ⟨?_, hfirst⟩
          intro σ hσ hnot
          rcases List.mem_cons.mp hσ with rfl | hσ
          · exact hquiet
          · exact hothers σ hσ hnot
        · rintro ⟨hothers, hfirst⟩
          exact ⟨hothers τ List.mem_cons_self hdue, fun σ hσ => hothers σ (List.mem_cons_of_mem _ hσ), hfirst⟩

theorem mod_lt_iff_same_period {period τ d : Nat} (hlt : τ < d) (hclose : d - τ < period) :
    τ % period < d % period ↔ τ / period = d / period := by
  have hpos : 0 < period := by omega
  have hτ := Nat.div_add_mod τ period
  have hd := Nat.div_add_mod d period
  have hτm := Nat.mod_lt τ hpos
  have hdm := Nat.mod_lt d hpos
  constructor
  · intro h
    rcases Nat.lt_trichotomy (τ / period) (d / period) with hq | hq | hq
    · have hstep : period * (τ / period) + period ≤ period * (d / period) := by
        rw [← Nat.mul_succ]
        exact Nat.mul_le_mul_left period hq
      omega
    · exact hq
    · have hle : d / period ≤ τ / period := Nat.le_of_lt hq
      exact absurd (Nat.div_le_div_right (c := period) (Nat.le_of_lt hlt)) (Nat.not_le_of_lt hq)
  · intro h
    rw [h] at hτ
    omega

theorem mod_le_iff_same_period {period τ d : Nat} (hle : τ ≤ d) (hclose : d - τ < period) :
    τ % period ≤ d % period ↔ τ / period = d / period := by
  rcases Nat.eq_or_lt_of_le hle with rfl | hlt
  · simp
  · rw [← mod_lt_iff_same_period hlt hclose]
    refine ⟨fun h => Nat.lt_of_le_of_ne h fun heq => ?_, Nat.le_of_lt⟩
    have hdvd : period ∣ d - τ := (Nat.modEq_iff_dvd' hle).mp heq
    have hzero := Nat.eq_zero_of_dvd_of_lt hdvd hclose
    omega

end Cwsd.Wraparound

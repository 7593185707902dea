import Mathlib.Data.List.Basic

namespace Cwsd.Runs

variable {σ α : Type}

/-- Finite runs of a machine given by a partial step function. The predicate ok
restricts which steps are considered: it may speak about the state before the
step and about the action, never about the state after it. -/
inductive Run (step : σ → α → Option σ) (ok : σ → α → Prop) (s₀ : σ) : List α → σ → Prop
  | start : Run step ok s₀ [] s₀
  | next {as : List α} {s : σ} (a : α) {s' : σ} :
      Run step ok s₀ as s → ok s a → step s a = some s' → Run step ok s₀ (as ++ [a]) s'

variable {step : σ → α → Option σ} {ok ok' : σ → α → Prop} {s₀ s : σ} {as : List α}

/-- What holds at the start and is kept by every admitted step holds after every run. -/
theorem Run.invariant (h : Run step ok s₀ as s) (inv : σ → Prop) (hstart : inv s₀)
    (hstep : ∀ s a s', inv s → ok s a → step s a = some s' → inv s') : inv s := by
  induction h with
  | start => exact hstart
  | next a _ hok hs ih => exact hstep _ a _ ih hok hs

theorem Run.head {a : α} {s₁ : σ} (hok : ok s₀ a) (hs : step s₀ a = some s₁) (h : Run step ok s₁ as s) :
    Run step ok s₀ (a :: as) s := by
  induction h with
  | start => exact .next a .start hok hs
  | next b _ hok' hs' ih => exact .next b ih hok' hs'

theorem Run.mono (h : Run step ok s₀ as s) (himp : ∀ s a, ok s a → ok' s a) :
    Run step ok' s₀ as s := by
  induction h with
  | start => exact .start
  | next a _ hok hs ih => exact .next a ih (himp _ a hok) hs

theorem Run.append {bs : List α} {t : σ} (h : Run step ok s₀ as s) (h' : Run step ok s bs t) :
    Run step ok s₀ (as ++ bs) t := by
  induction h' with
  | start => simpa using h
  | next a _ hok hs ih => simpa using Run.next a ih hok hs

theorem Run.countP_add_le (h : Run step ok s₀ as s) (inv : σ → Prop) (rank : σ → Nat) (counted : α → Bool)
    (hstart : inv s₀) (hstep : ∀ s a s', inv s → ok s a → step s a = some s' →
      inv s' ∧ rank s' + (counted a).toNat ≤ rank s) :
    inv s ∧ as.countP counted + rank s ≤ rank s₀ := by
  induction h with
  | start => exact ⟨hstart, by simp⟩
  | next a _ hok hs ih =>
      obtain ⟨hinv, hle⟩ := ih
      obtain ⟨hinv', hlower⟩ := hstep _ a _ hinv hok hs
      refine ⟨hinv', ?_⟩
      rw [List.countP_append, List.countP_singleton]
      cases hc : counted a with
      | false =>
          rw [hc, Bool.toNat_false] at hlower
          rw [if_neg Bool.false_ne_true]
          omega
      | true =>
          rw [hc, Bool.toNat_true] at hlower
          rw [if_pos rfl]
          omega

/-- The machine with a note of what has happened, which no step depends on. -/
def observed {γ : Type} (step : σ → α → Option σ) (note : σ → α → γ → γ) (s : σ × γ) (a : α) : Option (σ × γ) :=
  (step s.1 a).map fun s' => (s', note s.1 a s.2)

theorem observed_eq_some {γ : Type} {note : σ → α → γ → γ} {t t' : σ × γ} {a : α} :
    observed step note t a = some t' ↔ step t.1 a = some t'.1 ∧ t'.2 = note t.1 a t.2 := by
  constructor
  · intro h
    obtain ⟨s', hs', rfl⟩ := Option.map_eq_some_iff.mp h
    exact ⟨hs', rfl⟩
  · rintro ⟨hs, hnote⟩
    rw [observed, hs, Option.map_some, ← hnote]

def exec (step : σ → α → Option σ) (ok : σ → α → Prop) [∀ s a, Decidable (ok s a)] :
    σ → List α → Option σ
  | s, [] => some s
  | s, a :: as => if ok s a then (step s a).bind fun s' => exec step ok s' as else none

theorem Run.extend [∀ s a, Decidable (ok s a)] {bs : List α} {s' : σ}
    (h : Run step ok s₀ as s) (he : exec step ok s bs = some s') :
    Run step ok s₀ (as ++ bs) s' := by
  induction bs generalizing as s with
  | nil =>
      cases he
      simpa using h
  | cons b bs ih =>
      simp only [exec] at he
      split at he
      · rename_i hok
        obtain ⟨t, ht, he⟩ := Option.bind_eq_some_iff.mp he
        simpa using ih (.next b h hok ht) he
      · cases he

theorem run_of_exec [∀ s a, Decidable (ok s a)] (he : exec step ok s₀ as = some s) :
    Run step ok s₀ as s := by
  have hstart : Run step ok s₀ [] s₀ := .start
  simpa using hstart.extend he

theorem run_of_exec_map {β : Type} (step : σ → α → Option σ) (ok : σ → α → Prop)
    [∀ s a, Decidable (ok s a)] (s₀ : σ) (as : List α) (view : σ → β) (v : β)
    (he : (exec step ok s₀ as).map view = some v) : ∃ s, Run step ok s₀ as s ∧ view s = v := by
  obtain ⟨s, hs, hv⟩ := Option.map_eq_some_iff.mp he
  exact ⟨s, run_of_exec hs, hv⟩

end Cwsd.Runs

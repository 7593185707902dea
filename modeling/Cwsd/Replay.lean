import Mathlib.Data.List.Basic

namespace Cwsd.Replay

variable {σ τ α β : Type}

/-- What a machine puts out for each action, and the state it ends in. -/
def replay (step : α → σ → β × σ) : List α → σ → List β × σ
  | [], s => ([], s)
  | a :: as, s => ((step a s).1 :: (replay step as (step a s).2).1, (replay step as (step a s).2).2)

/-- Machines that agree on what they put out, state by related state, agree on every run. -/
theorem replay_simulates {step : α → σ → β × σ} {step' : α → τ → β × τ} {rel : σ → τ → Prop}
    (hstep : ∀ a s t, rel s t → (step a s).1 = (step' a t).1 ∧ rel (step a s).2 (step' a t).2)
    (as : List α) {s : σ} {t : τ} (h : rel s t) :
    (replay step as s).1 = (replay step' as t).1 ∧ rel (replay step as s).2 (replay step' as t).2 := by
  induction as generalizing s t with
  | nil => exact ⟨rfl, h⟩
  | cons a as ih =>
      obtain ⟨hout, hrel⟩ := hstep a s t h
      obtain ⟨houts, hend⟩ := ih hrel
      refine ⟨?_, hend⟩
      rw [replay, replay, hout, houts]

theorem replay_log {step : α → σ → β × σ} {next : τ → α → τ} {log : τ → List β} {rel : σ → τ → Prop}
    (hstep : ∀ a s t, rel s t → log (next t a) = log t ++ [(step a s).1] ∧ rel (step a s).2 (next t a))
    (as : List α) {s : σ} {t : τ} (h : rel s t) :
    log (as.foldl next t) = log t ++ (replay step as s).1 ∧ rel (replay step as s).2 (as.foldl next t) := by
  induction as generalizing s t with
  | nil => exact ⟨(List.append_nil _).symm, h⟩
  | cons a as ih =>
      obtain ⟨hout, hrel⟩ := hstep a s t h
      obtain ⟨houts, hend⟩ := ih hrel
      refine ⟨?_, hend⟩
      rw [List.foldl_cons, houts, hout, replay, List.append_assoc, List.singleton_append]

theorem replay_snd (step : α → σ → β × σ) (as : List α) (s : σ) :
    (replay step as s).2 = as.foldl (fun s a => (step a s).2) s := by
  induction as generalizing s with
  | nil => rfl
  | cons a as ih => exact ih (step a s).2

def lastWrite (write : α → Option β) (as : List α) : Option β := (as.filterMap write).getLast?

theorem foldl_lastWrite (register : σ → β) {step : σ → α → σ} {write : α → Option β}
    (hstep : ∀ s a, register (step s a) = (write a).getD (register s)) (as : List α) (s : σ) :
    register (as.foldl step s) = (lastWrite write as).getD (register s) := by
  induction as generalizing s with
  | nil => rfl
  | cons a as ih =>
      rw [List.foldl_cons, ih, hstep, lastWrite, lastWrite]
      cases ha : write a with
      | none => rw [List.filterMap_cons_none ha, Option.getD_none]
      | some b =>
          rw [List.filterMap_cons_some ha, List.getLast?_cons, Option.getD_some]
          cases (as.filterMap write).getLast? <;> rfl

end Cwsd.Replay

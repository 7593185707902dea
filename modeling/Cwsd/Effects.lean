import Mathlib.Tactic.Common

namespace Cwsd.Effects

variable {ε σ α β : Type}

/-- What a call comes to: it returns, it throws, or its behaviour is undefined. A
thrown exception leaves what was done before it; nothing is known of undefined
behaviour, and no handler sees it. -/
inductive Outcome (ε σ α : Type)
  | returned (value : α) (state : σ)
  | threw (exception : ε) (state : σ)
  | undefined
  deriving Repr

def Effect (ε σ α : Type) : Type := σ → Outcome ε σ α

def Outcome.andThen (o : Outcome ε σ α) (f : α → Effect ε σ β) : Outcome ε σ β :=
  match o with
  | .returned a s => f a s
  | .threw e s => .threw e s
  | .undefined => .undefined

instance : Monad (Effect ε σ) where
  pure a := fun s => .returned a s
  bind m f := fun s => (m s).andThen f

def getState : Effect ε σ σ := fun s => .returned s s

def modifyState (f : σ → σ) : Effect ε σ Unit := fun s => .returned () (f s)

def ofExcept : Except ε α → Effect ε σ α
  | .ok a => pure a
  | .error e => fun s => .threw e s

/-- A subscript, which is undefined behaviour outside of the vector. -/
def subscript (pieces : List α) (i : Nat) : Effect ε σ α :=
  match pieces[i]? with
  | some piece => pure piece
  | none => fun _ => .undefined

def tryCatch (m : Effect ε σ α) (handler : ε → Effect ε σ α) : Effect ε σ α := fun s =>
  match m s with
  | .threw e s' => handler e s'
  | o => o

/-- The behaviour of m from s is defined. -/
def Defined (m : Effect ε σ α) (s : σ) : Prop := m s ≠ .undefined

/-- The call ends, with a value or with an exception, in a state that satisfies P. -/
def Outcome.Ends (P : σ → Prop) : Outcome ε σ α → Prop
  | .returned _ s => P s
  | .threw _ s => P s
  | .undefined => False

/-- From every state m ends, in a state that R relates to it. -/
def Meets (R : σ → σ → Prop) (m : Effect ε σ α) : Prop := ∀ s, (m s).Ends (R s)

theorem Outcome.Ends.mono {P Q : σ → Prop} {o : Outcome ε σ α} (h : o.Ends P) (hpq : ∀ s, P s → Q s) :
    o.Ends Q := by
  cases o with
  | returned a s => exact hpq s h
  | threw e s => exact hpq s h
  | undefined => exact h

theorem bind_apply (m : Effect ε σ α) (f : α → Effect ε σ β) (s : σ) : (m >>= f) s = (m s).andThen f := rfl

theorem defined_pure (a : α) (s : σ) : Defined (pure a : Effect ε σ α) s := fun h => nomatch h

theorem bind_undefined {m : Effect ε σ α} {f : α → Effect ε σ β} {s : σ} (h : m s = .undefined) :
    (m >>= f) s = .undefined := by
  rw [bind_apply, h, Outcome.andThen]

theorem defined_bind {m : Effect ε σ α} {f : α → Effect ε σ β} {s : σ} (hm : Defined m s)
    (hf : ∀ a s', m s = .returned a s' → Defined (f a) s') : Defined (m >>= f) s := by
  unfold Defined
  rw [bind_apply]
  cases h : m s with
  | returned a s' => exact hf a s' h
  | threw e s' => simp [Outcome.andThen]
  | undefined => exact absurd h hm

theorem tryCatch_of_threw {m : Effect ε σ α} {handler : ε → Effect ε σ α} {s s' : σ} {e : ε}
    (h : m s = .threw e s') : tryCatch m handler s = handler e s' := by
  rw [tryCatch.eq_def, h]

theorem defined_getState_bind {f : σ → Effect ε σ α} {s : σ} (h : Defined (f s) s) :
    Defined (getState >>= f) s := h

theorem defined_modifyState_bind {f : σ → σ} {g : Unit → Effect ε σ α} {s : σ} (h : Defined (g ()) (f s)) :
    Defined (modifyState f >>= g) s := h

theorem subscript_undefined {pieces : List α} {i : Nat} (h : pieces.length ≤ i) (s : σ) :
    (subscript pieces i : Effect ε σ α) s = .undefined := by
  rw [subscript, List.getElem?_eq_none h]

section

variable {R : σ → σ → Prop}

theorem Meets.defined {m : Effect ε σ α} (h : Meets R m) (s : σ) : Defined m s := by
  intro hs
  have hends := h s
  rwa [hs] at hends

theorem Meets.returned {m : Effect ε σ α} (h : Meets R m) {s s' : σ} {a : α} (hm : m s = .returned a s') :
    R s s' := by
  have hends := h s
  rwa [hm] at hends

theorem meets_modifyState {f : σ → σ} (h : ∀ s, R s (f s)) : Meets R (modifyState f : Effect ε σ Unit) := h

theorem meets_ite {c : Prop} [Decidable c] {m n : Effect ε σ α} (hm : c → Meets R m)
    (hn : ¬ c → Meets R n) : Meets R (if c then m else n) := by
  split
  · exact hm ‹_›
  · exact hn ‹_›

theorem meets_pure [Std.Refl R] (a : α) : Meets R (pure a : Effect ε σ α) := fun s => Std.Refl.refl s

theorem meets_getState [Std.Refl R] : Meets R (getState : Effect ε σ σ) := fun s => Std.Refl.refl s

theorem meets_ofExcept [Std.Refl R] (x : Except ε α) : Meets R (ofExcept x : Effect ε σ α) := by
  intro s
  cases x <;> exact Std.Refl.refl s

theorem meets_subscript [Std.Refl R] {pieces : List α} {i : Nat} (h : i < pieces.length) :
    Meets R (subscript pieces i : Effect ε σ α) := by
  rw [subscript, List.getElem?_eq_getElem h]
  exact meets_pure _

theorem meets_bind [IsTrans σ R] {m : Effect ε σ α} {f : α → Effect ε σ β} (hm : Meets R m)
    (hf : ∀ a, Meets R (f a)) : Meets R (m >>= f) := by
  intro s
  have hs := hm s
  rw [bind_apply]
  cases h : m s with
  | returned a s' =>
      rw [h] at hs
      exact (hf a s').mono fun s'' => IsTrans.trans s s' s'' hs
  | threw e s' =>
      rw [h] at hs
      exact hs
  | undefined =>
      rw [h] at hs
      exact hs

theorem meets_tryCatch [IsTrans σ R] {m : Effect ε σ α} {handler : ε → Effect ε σ α} (hm : Meets R m)
    (hh : ∀ e, Meets R (handler e)) : Meets R (tryCatch m handler) := by
  intro s
  have hs := hm s
  unfold tryCatch
  cases h : m s with
  | returned a s' =>
      rw [h] at hs
      exact hs
  | threw e s' =>
      rw [h] at hs
      exact (hh e s').mono fun s'' => IsTrans.trans s s' s'' hs
  | undefined =>
      rw [h] at hs
      exact hs

end

end Cwsd.Effects

import Mathlib.Data.List.Basic
import Mathlib.Order.MinMax

namespace Cwsd.KeyingSchedule

/-- The lengths of a sender of elements, in ticks. -/
structure Timings (α : Type) where
  length : α → ℕ
  elementGap : ℕ
  letterExtra : ℕ
  wordGap : ℕ
  length_pos : ∀ e, 0 < length e
  wordGap_pos : 0 < wordGap

/-- A letter has a first element and more; none is a space. -/
abbrev Token (α : Type) := Option (α × List α)

variable {α : Type} (T : Timings α)

def Timings.letterGap : ℕ := T.elementGap + T.letterExtra

def Timings.gapBefore : ℕ → ℕ
  | 0 => T.letterGap
  | k + 1 => max T.letterGap T.wordGap + k * T.wordGap

/-- Each element with the gap before it; spaces counts the spaces in front of the text. -/
def marks (spaces : ℕ) : List (Token α) → List (ℕ × α)
  | [] => []
  | none :: text => marks (spaces + 1) text
  | some (e, es) :: text => (T.gapBefore spaces, e) :: (es.map fun e => (T.elementGap, e)) ++ marks 0 text

/-- When the key goes down and up for the elements, after it was released at the time t. -/
def keyTimes (t : ℕ) : List (ℕ × α) → List (ℕ × Bool)
  | [] => []
  | (gap, e) :: ms => (t + gap, true) :: (t + gap + T.length e, false) :: keyTimes (t + gap + T.length e) ms

/-- The first element of a text is sent at once. -/
def timeline (t : ℕ) (text : List (Token α)) : List (ℕ × Bool) :=
  match marks T 0 text with
  | [] => []
  | (_, e) :: ms => keyTimes T t ((0, e) :: ms)

/-- The sender: the key is down, or a gap lasts, or it is about to choose what comes next, within a letter
or behind it. The time last is that of the last release, or the end of the last space. -/
inductive Sender (α : Type)
  | down (due : ℕ) (es : List α) (text : List (Token α))
  | elementGap (last due : ℕ) (es : List α) (text : List (Token α))
  | choosing (last : ℕ) (es : List α) (text : List (Token α))
  | letterGap (last due : ℕ) (text : List (Token α))
  | spaced (last : ℕ) (text : List (Token α))
  | wordGap (due : ℕ) (text : List (Token α))

namespace Sender

/-- One transition at the time t, with the key changes it makes; none when the sender waits. -/
def pass (t : ℕ) : Sender α → Option (Sender α × List Bool)
  | down due es text => if due ≤ t then some (elementGap t (t + T.elementGap) es text, [false]) else none
  | elementGap last due es text => if due ≤ t then some (choosing last es text, []) else none
  | choosing _ (e :: es) text => some (down (t + T.length e) es text, [true])
  | choosing last [] text => some (letterGap last (t + T.letterExtra) text, [])
  | letterGap last due text => if due ≤ t then some (spaced last text, []) else none
  | spaced _ [] => none
  | spaced last (none :: text) => some (wordGap (last + T.wordGap) text, [])
  | spaced _ (some (e, es) :: text) => some (down (t + T.length e) es text, [true])
  | wordGap due text => if due ≤ t then some (spaced t text, []) else none

/-- What one tick does when it allows this many transitions. -/
def drain (t : ℕ) : ℕ → Sender α → Sender α × List Bool
  | 0, s => (s, [])
  | n + 1, s =>
      match s.pass T t with
      | none => (s, [])
      | some (s', keys) => ((drain t n s').1, keys ++ (drain t n s').2)

def rank (t : ℕ) : Sender α → ℕ
  | down due _ _ => if due ≤ t then 7 else 0
  | elementGap _ due _ _ => if due ≤ t then 6 else 0
  | choosing _ (_ :: _) _ => 1
  | choosing _ [] _ => 5
  | letterGap _ due _ => if due ≤ t then 4 else 0
  | spaced _ [] => 0
  | spaced last (none :: _) => if last + T.wordGap ≤ t then 3 else 1
  | spaced _ (some _ :: _) => 1
  | wordGap due _ => if due ≤ t then 2 else 0

end Sender

def following (es : List α) (text : List (Token α)) : List (ℕ × α) :=
  es.map (fun e => (T.elementGap, e)) ++ marks T 0 text

def textFrom (begins : ℕ → ℕ) : List (Token α) → List (ℕ × Bool)
  | [] => []
  | none :: text => textFrom (fun k => begins (k + 1)) text
  | some (e, es) :: text =>
      (begins 0, true) :: (begins 0 + T.length e, false) ::
        keyTimes T (begins 0 + T.length e) (following T es text)

def letterBegins (t last : ℕ) : ℕ → ℕ
  | 0 => t
  | k + 1 => max t (last + T.wordGap) + k * T.wordGap

def chosen (t last : ℕ) (es : List α) (text : List (Token α)) : List (ℕ × Bool) :=
  match es with
  | e :: es =>
      (t, true) :: (t + T.length e, false) :: keyTimes T (t + T.length e) (following T es text)
  | [] => textFrom T (letterBegins T (t + T.letterExtra) last) text

namespace Sender

def future (t : ℕ) : Sender α → List (ℕ × Bool)
  | down due es text => (max t due, false) :: keyTimes T (max t due) (following T es text)
  | elementGap last due es text => chosen T (max t due) last es text
  | choosing last es text => chosen T t last es text
  | letterGap last due text => textFrom T (letterBegins T (max t due) last) text
  | spaced last text => textFrom T (letterBegins T t last) text
  | wordGap due text => textFrom T (fun k => max t due + k * T.wordGap) text

end Sender

variable {T}

theorem textFrom_gapBefore (t spaces : ℕ) (text : List (Token α)) :
    textFrom T (fun k => t + T.gapBefore (spaces + k)) text = keyTimes T t (marks T spaces text) := by
  induction text generalizing spaces with
  | nil => rfl
  | cons token text ih =>
      cases token with
      | none =>
          rw [textFrom, marks, ← ih]
          congr 1
          funext k
          congr 2
          omega
      | some letter => rfl

theorem chosen_eq (t : ℕ) (es : List α) (text : List (Token α)) :
    chosen T (t + T.elementGap) t es text = keyTimes T t (following T es text) := by
  cases es with
  | cons e es => rfl
  | nil =>
      have hbegins : letterBegins T (t + T.elementGap + T.letterExtra) t = fun k => t + T.gapBefore k := by
        funext k
        cases k with
        | zero => simp only [letterBegins, Timings.gapBefore, Timings.letterGap, Nat.add_assoc]
        | succ k =>
            simp only [letterBegins, Timings.gapBefore, Timings.letterGap]
            omega
      have htext := textFrom_gapBefore (T := T) t 0 text
      simp only [Nat.zero_add] at htext
      rw [chosen, hbegins, htext]
      rfl

namespace Sender

variable {t : ℕ} {s s' : Sender α} {keys : List Bool}

theorem future_pass (h : s.pass T t = some (s', keys)) :
    s.future T t = keys.map (fun key => (t, key)) ++ s'.future T t := by
  cases s with
  | down due es text =>
      obtain ⟨hdue, heq⟩ := Option.ite_none_right_eq_some.mp h
      cases heq
      rw [future, future, max_eq_left hdue, max_eq_right (Nat.le_add_right t _), chosen_eq]
      rfl
  | elementGap last due es text =>
      obtain ⟨hdue, heq⟩ := Option.ite_none_right_eq_some.mp h
      cases heq
      rw [future, future, max_eq_left hdue]
      rfl
  | choosing last es text =>
      cases es with
      | nil =>
          cases h
          rw [future, future, max_eq_right (Nat.le_add_right t _)]
          rfl
      | cons e es =>
          cases h
          rw [future, future, max_eq_right (Nat.le_add_right t _)]
          rfl
  | letterGap last due text =>
      obtain ⟨hdue, heq⟩ := Option.ite_none_right_eq_some.mp h
      cases heq
      rw [future, future, max_eq_left hdue]
      rfl
  | spaced last text =>
      match text with
      | none :: text =>
          cases h
          rfl
      | some (e, es) :: text =>
          cases h
          rw [future, future, max_eq_right (Nat.le_add_right t _)]
          rfl
  | wordGap due text =>
      obtain ⟨hdue, heq⟩ := Option.ite_none_right_eq_some.mp h
      cases heq
      have hbegins : letterBegins T t t = fun k => t + k * T.wordGap := by
        funext k
        cases k with
        | zero => simp [letterBegins]
        | succ k => rw [letterBegins, max_eq_right (Nat.le_add_right t _), Nat.succ_mul, Nat.add_assoc,
            Nat.add_comm T.wordGap]
      rw [future, future, max_eq_left hdue, hbegins]
      rfl

theorem future_wait (h : s.pass T t = none) : s.future T (t + 1) = s.future T t := by
  have hmax {due : ℕ} (hdue : ¬ due ≤ t) : max (t + 1) due = max t due := by omega
  cases s with
  | down due es text =>
      have hdue : ¬ due ≤ t := by simpa [pass] using h
      rw [future, future, hmax hdue]
  | elementGap last due es text =>
      have hdue : ¬ due ≤ t := by simpa [pass] using h
      rw [future, future, hmax hdue]
  | choosing last es text => cases es <;> cases h
  | letterGap last due text =>
      have hdue : ¬ due ≤ t := by simpa [pass] using h
      rw [future, future, hmax hdue]
  | spaced last text =>
      match text with
      | [] => rfl
  | wordGap due text =>
      have hdue : ¬ due ≤ t := by simpa [pass] using h
      rw [future, future, hmax hdue]

theorem rank_down (e : α) (es : List α) (text : List (Token α)) : rank T t (.down (t + T.length e) es text) = 0 := by
  have hpos := T.length_pos e
  rw [rank, if_neg (by omega)]

theorem rank_elementGap_le (last due : ℕ) (es : List α) (text : List (Token α)) :
    rank T t (.elementGap last due es text) ≤ 6 := by
  rw [rank]
  split
  · exact le_rfl
  · exact Nat.zero_le 6

theorem rank_choosing_le (last : ℕ) (es : List α) (text : List (Token α)) :
    rank T t (.choosing last es text) ≤ 5 := by
  cases es with
  | nil => exact le_rfl
  | cons e es => exact (by decide : 1 ≤ 5)

theorem rank_letterGap_le (last due : ℕ) (text : List (Token α)) : rank T t (.letterGap last due text) ≤ 4 := by
  rw [rank]
  split
  · exact le_rfl
  · exact Nat.zero_le 4

theorem rank_spaced_le (last : ℕ) (text : List (Token α)) : rank T t (.spaced last text) ≤ 3 := by
  match text with
  | [] => exact Nat.zero_le 3
  | none :: text =>
      rw [rank]
      split
      · exact le_rfl
      · decide
  | some letter :: text => exact (by decide : 1 ≤ 3)

theorem rank_spaced_lt (text : List (Token α)) : rank T t (.spaced t text) < 2 := by
  match text with
  | [] => exact Nat.two_pos
  | none :: text =>
      have hpos := T.wordGap_pos
      rw [rank, if_neg (by omega)]
      decide
  | some letter :: text => exact Nat.one_lt_two

theorem rank_pass (h : s.pass T t = some (s', keys)) : s'.rank T t < s.rank T t := by
  cases s with
  | down due es text =>
      obtain ⟨hdue, heq⟩ := Option.ite_none_right_eq_some.mp h
      cases heq
      rw [rank.eq_def T t (down due es text)]
      exact (rank_elementGap_le ..).trans_lt (by simp [hdue])
  | elementGap last due es text =>
      obtain ⟨hdue, heq⟩ := Option.ite_none_right_eq_some.mp h
      cases heq
      rw [rank.eq_def T t (elementGap last due es text)]
      exact (rank_choosing_le ..).trans_lt (by simp [hdue])
  | choosing last es text =>
      cases es with
      | nil =>
          cases h
          exact Nat.lt_succ_of_le (rank_letterGap_le ..)
      | cons e es =>
          cases h
          rw [rank_down]
          exact Nat.one_pos
  | letterGap last due text =>
      obtain ⟨hdue, heq⟩ := Option.ite_none_right_eq_some.mp h
      cases heq
      rw [rank.eq_def T t (letterGap last due text)]
      exact (rank_spaced_le ..).trans_lt (by simp [hdue])
  | spaced last text =>
      match text with
      | none :: text =>
          cases h
          rw [rank, rank]
          split
          · decide
          · decide
      | some (e, es) :: text =>
          cases h
          rw [rank_down]
          exact Nat.one_pos
  | wordGap due text =>
      obtain ⟨hdue, heq⟩ := Option.ite_none_right_eq_some.mp h
      cases heq
      rw [rank.eq_def T t (wordGap due text)]
      exact (rank_spaced_lt text).trans_le (by simp [hdue])

def Past (t : ℕ) : Sender α → Prop
  | elementGap last _ _ _ | choosing last _ _ | letterGap last _ _ | spaced last _ => last ≤ t
  | down .. | wordGap .. => True

theorem Past.mono {u : ℕ} (h : s.Past t) (hle : t ≤ u) : s.Past u := by
  cases s with
  | elementGap | choosing | letterGap | spaced => exact Nat.le_trans h hle
  | down | wordGap => trivial

theorem past_pass (h : s.pass T t = some (s', keys)) (hpast : s.Past t) : s'.Past t := by
  cases s with
  | down due es text =>
      obtain ⟨hdue, heq⟩ := Option.ite_none_right_eq_some.mp h
      cases heq
      exact Nat.le_refl t
  | elementGap last due es text | letterGap last due text =>
      obtain ⟨hdue, heq⟩ := Option.ite_none_right_eq_some.mp h
      cases heq
      exact hpast
  | choosing last es text =>
      cases es with
      | nil =>
          cases h
          exact hpast
      | cons e es =>
          cases h
          trivial
  | spaced last text =>
      match text with
      | none :: text | some letter :: text =>
          cases h
          trivial
  | wordGap due text =>
      obtain ⟨hdue, heq⟩ := Option.ite_none_right_eq_some.mp h
      cases heq
      exact Nat.le_refl t

theorem rank_le (t : ℕ) (s : Sender α) : s.rank T t ≤ 7 := by
  cases s with
  | down | wordGap =>
      rw [rank]
      split
      · decide
      · decide
  | elementGap => exact (rank_elementGap_le ..).trans (by decide)
  | choosing => exact (rank_choosing_le ..).trans (by decide)
  | letterGap => exact (rank_letterGap_le ..).trans (by decide)
  | spaced => exact (rank_spaced_le ..).trans (by decide)

theorem future_drain {n : ℕ} (hn : s.rank T t < n) :
    s.future T t =
      (s.drain T t n).2.map (fun key => (t, key)) ++ (s.drain T t n).1.future T (t + 1) := by
  induction n generalizing s with
  | zero => exact absurd hn (Nat.not_lt_zero _)
  | succ n ih =>
      rw [drain]
      cases hpass : s.pass T t with
      | none => exact (future_wait hpass).symm
      | some r =>
          obtain ⟨s', keys⟩ := r
          have hrank := rank_pass hpass
          rw [future_pass hpass, ih (by omega)]
          simp

end Sender

theorem le_keyTimes {t : ℕ} {ms : List (ℕ × α)} {x : ℕ × Bool} (h : x ∈ keyTimes T t ms) : t ≤ x.1 := by
  induction ms generalizing t with
  | nil => cases h
  | cons m ms ih =>
      obtain ⟨gap, e⟩ := m
      rw [keyTimes, List.mem_cons, List.mem_cons] at h
      rcases h with rfl | rfl | h
      · exact Nat.le_add_right t gap
      · exact (Nat.le_add_right t gap).trans (Nat.le_add_right _ _)
      · have hle := ih h
        omega

theorem le_textFrom {t : ℕ} {begins : ℕ → ℕ} (hbegins : ∀ k, t ≤ begins k) {text : List (Token α)}
    {x : ℕ × Bool} (h : x ∈ textFrom T begins text) : t ≤ x.1 := by
  induction text generalizing begins with
  | nil => cases h
  | cons token text ih =>
      cases token with
      | none => exact ih (fun k => hbegins (k + 1)) h
      | some letter =>
          have hzero := hbegins 0
          rw [textFrom, List.mem_cons, List.mem_cons] at h
          rcases h with rfl | rfl | h
          · exact hzero
          · exact hzero.trans (Nat.le_add_right _ _)
          · have hle := le_keyTimes h
            omega

theorem le_letterBegins {t u : ℕ} (h : t ≤ u) (last k : ℕ) : t ≤ letterBegins T u last k := by
  cases k with
  | zero => exact h
  | succ k =>
      rw [letterBegins]
      omega

theorem Sender.le_future {t : ℕ} {s : Sender α} {x : ℕ × Bool} (h : x ∈ s.future T t) : t ≤ x.1 := by
  have hchosen {u last : ℕ} {es : List α} {text : List (Token α)} (hu : t ≤ u)
      (h : x ∈ chosen T u last es text) : t ≤ x.1 := by
    cases es with
    | nil => exact le_textFrom (le_letterBegins (by omega) last) h
    | cons e es =>
        rw [chosen, List.mem_cons, List.mem_cons] at h
        rcases h with rfl | rfl | h
        · exact hu
        · exact hu.trans (Nat.le_add_right _ _)
        · have hle := le_keyTimes h
          omega
  cases s with
  | down due es text =>
      rw [future, List.mem_cons] at h
      rcases h with rfl | h
      · exact le_max_left t due
      · exact (le_max_left t due).trans (le_keyTimes h)
  | elementGap last due es text => exact hchosen (le_max_left t due) h
  | choosing last es text => exact hchosen le_rfl h
  | letterGap last due text => exact le_textFrom (le_letterBegins (le_max_left t due) last) h
  | spaced last text => exact le_textFrom (le_letterBegins le_rfl last) h
  | wordGap due text =>
      refine le_textFrom (fun k => ?_) h
      omega

theorem timeline_letter (t : ℕ) (e : α) (es : List α) (text : List (Token α)) :
    timeline T t (some (e, es) :: text) =
      (t, true) :: (Sender.down (t + T.length e) es text).future T t := by
  rw [Sender.future, max_eq_right (Nat.le_add_right t _)]
  rfl

end Cwsd.KeyingSchedule

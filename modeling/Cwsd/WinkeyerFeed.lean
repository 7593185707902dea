import Cwsd.CwDaemon
import Cwsd.WinkeyerData

namespace Cwsd.WinkeyerFeed

open KeyerState KeyerMachine WinkeyerData CwDaemon Stoi

/-- The part of the keyer that winkeyer_data parses with. -/
structure FrameParser where
  waiting : UInt8
  pending : UInt8
  index : UInt8
  arguments : List UInt8
  remaining : UInt8
  deriving DecidableEq

namespace FrameParser

def Starts (c : UInt8) (p : FrameParser) : Prop :=
  p.remaining = 0 ∧ isWinkeyerCommand c ∧ ¬ isWinkeyerBufferedCommand c

instance (c : UInt8) (p : FrameParser) : Decidable (p.Starts c) := inferInstanceAs (Decidable (_ ∧ _))

def feed (c : UInt8) (p : FrameParser) : FrameParser :=
  if 0 < p.waiting then
    { p with arguments := p.arguments.set p.index.toNat c, index := p.index + 1, waiting := p.waiting - 1 }
  else if p.Starts c then
    { p with pending := c, waiting := UInt8.ofNat (parameterCount c), index := 0 }
  else
    { p with
      remaining :=
        if 0 < p.remaining then p.remaining - 1
        else if isWinkeyerCommand c && isWinkeyerBufferedCommand c then UInt8.ofNat (parameterCount c)
        else 0 }

def execute (p : FrameParser) : List Event :=
  if p.pending = 0x0B then
    if p.arguments.headD 0 = 1 then [.keyDown .immediate] else [.keyUp .immediate]
  else []

def keys (c : UInt8) (p : FrameParser) : List Event :=
  if (0 < p.waiting ∨ p.Starts c) ∧ (p.feed c).waiting = 0 then (p.feed c).execute else []

def feedAll : List UInt8 → FrameParser → FrameParser
  | [], p => p
  | c :: bytes, p => feedAll bytes (p.feed c)

def keysAll : List UInt8 → FrameParser → List Event
  | [], _ => []
  | c :: bytes, p => p.keys c ++ keysAll bytes (p.feed c)

/-- Between frames: the next byte starts a new one. -/
def AtBoundary (p : FrameParser) : Prop := p.waiting = 0 ∧ p.remaining = 0

theorem feedAll_append (xs ys : List UInt8) (p : FrameParser) :
    p.feedAll (xs ++ ys) = (p.feedAll xs).feedAll ys := by
  induction xs generalizing p with
  | nil => rfl
  | cons c xs ih => exact ih (p.feed c)

theorem keysAll_append (xs ys : List UInt8) (p : FrameParser) :
    p.keysAll (xs ++ ys) = p.keysAll xs ++ (p.feedAll xs).keysAll ys := by
  induction xs generalizing p with
  | nil => rfl
  | cons c xs ih => simp [keysAll, feedAll, ih]

end FrameParser

open FrameParser

/-- The bytes are whole frames and none of them keys the transmitter. -/
def Balanced (bytes : List UInt8) : Prop :=
  ∀ p : FrameParser, p.AtBoundary → (p.feedAll bytes).AtBoundary ∧ p.keysAll bytes = []

theorem balanced_nil : Balanced [] := fun _ hp => ⟨hp, rfl⟩

theorem Balanced.append {xs ys : List UInt8} (hx : Balanced xs) (hy : Balanced ys) : Balanced (xs ++ ys) := by
  intro p hp
  obtain ⟨hb, hk⟩ := hx p hp
  rw [feedAll_append, keysAll_append, hk, List.nil_append]
  exact hy _ hb

theorem balanced_text {c : UInt8} (hc : isWinkeyerCommand c = false) : Balanced [c] := by
  rintro ⟨waiting, pending, index, arguments, remaining⟩ ⟨hw, hr⟩
  dsimp only at hw hr
  subst hw hr
  simp [AtBoundary, feedAll, keysAll, keys, feed, Starts, hc]

theorem balanced_bufferedSpeed (speed : UInt8) : Balanced [0x1C, speed] := by
  rintro ⟨waiting, pending, index, arguments, remaining⟩ ⟨hw, hr⟩
  dsimp only at hw hr
  subst hw hr
  have hcmd : isWinkeyerCommand 0x1C = true := by decide
  have hbuf : isWinkeyerBufferedCommand 0x1C = true := by decide
  have hone : UInt8.ofNat (parameterCount 0x1C) = 1 := by decide
  simp [AtBoundary, feedAll, keysAll, keys, feed, Starts, hcmd, hbuf, hone]

theorem balanced_immediate {c : UInt8} (hc : ¬ FrameHead c) (hone : UInt8.ofNat (parameterCount c) = 1)
    (hkey : c ≠ 0x0B) (argument : UInt8) : Balanced [c, argument] := by
  rintro ⟨waiting, pending, index, arguments, remaining⟩ ⟨hw, hr⟩
  dsimp only at hw hr
  subst hw hr
  obtain ⟨hcmd, hbuf⟩ := not_not.mp ((frameHead_iff c).not.mp hc)
  simp [AtBoundary, feedAll, keysAll, keys, feed, Starts, execute, hcmd, hbuf, hone, hkey]

theorem balanced_clear : Balanced [0x0A] := by
  rintro ⟨waiting, pending, index, arguments, remaining⟩ ⟨hw, hr⟩
  dsimp only at hw hr
  subst hw hr
  have hcmd : isWinkeyerCommand 0x0A = true := by decide
  have hbuf : isWinkeyerBufferedCommand 0x0A = false := by decide
  have hzero : UInt8.ofNat (parameterCount 0x0A) = 0 := by decide
  simp [AtBoundary, feedAll, keysAll, keys, feed, Starts, execute, hcmd, hbuf, hzero]

theorem feedAll_key {p : FrameParser} (hp : p.AtBoundary) (argument : UInt8) :
    (p.feedAll [0x0B, argument]).AtBoundary ∧
      (argument = 0 → p.keysAll [0x0B, argument] = [.keyUp .immediate]) := by
  obtain ⟨waiting, pending, index, arguments, remaining⟩ := p
  obtain ⟨hw, hr⟩ := hp
  dsimp only at hw hr
  subst hw hr
  have hcmd : isWinkeyerCommand 0x0B = true := by decide
  have hbuf : isWinkeyerBufferedCommand 0x0B = false := by decide
  have hone : UInt8.ofNat (parameterCount 0x0B) = 1 := by decide
  refine ⟨by simp [AtBoundary, feedAll, feed, Starts, hcmd, hbuf, hone], ?_⟩
  rintro rfl
  cases arguments <;> simp [keysAll, keys, feed, Starts, execute, hcmd, hbuf, hone]

theorem Balanced.not_tuning {bytes : List UInt8} (h : Balanced bytes) : isTuningCommand bytes = false := by
  rw [Bool.eq_false_iff]
  intro ht
  simp only [isTuningCommand, Bool.and_eq_true, decide_eq_true_eq, beq_iff_eq] at ht
  match bytes, ht with
  | c :: d :: bytes, ht =>
      simp only [List.getD_cons_zero, List.getD_cons_succ] at ht
      obtain ⟨⟨-, rfl⟩, rfl⟩ := ht
      have hk := (h ⟨0, 0, 0, [0], 0⟩ ⟨rfl, rfl⟩).2
      have hfirst : FrameParser.keysAll [0x0B, 1] ⟨0, 0, 0, [0], 0⟩ = [.keyDown .immediate] := by decide
      rw [show (0x0B : UInt8) :: 1 :: bytes = [0x0B, 1] ++ bytes from rfl, keysAll_append, hfirst] at hk
      cases hk

theorem toUpper_not_command {c : UInt8} (hc : isWinkeyerCommand c = false) :
    isWinkeyerCommand (toUpper c) = false := by
  simp only [toUpper]
  split
  · rename_i h
    simp only [isWinkeyerCommand, decide_eq_false_iff_not, UInt8.le_iff_toNat_le, UInt8.reduceToNat] at hc h ⊢
    rw [UInt8.toNat_sub_of_le _ _ (by rw [UInt8.le_iff_toNat_le]; simp only [UInt8.reduceToNat]; omega)]
    simp only [UInt8.reduceToNat]
    omega
  · exact hc

theorem not_command_of_le {char : CharType} {c : UInt8} (h : 32 ≤ plainChar char c) :
    isWinkeyerCommand c = false := by
  simp only [isWinkeyerCommand, decide_eq_false_iff_not, UInt8.le_iff_toNat_le, UInt8.reduceToNat]
  have hlt := c.toNat_lt
  cases char with
  | unsigned =>
      simp only [plainChar] at h
      omega
  | signed =>
      simp only [plainChar] at h
      split at h <;> omega

/-- Whole frames of text and speed changes: sent from the speed w they end at the speed f. -/
inductive Settles : UInt8 → List UInt8 → UInt8 → Prop
  | nil {w : UInt8} : Settles w [] w
  | text {w c f : UInt8} {rest : List UInt8} (hc : isWinkeyerCommand c = false) (h : Settles w rest f) :
      Settles w (c :: rest) f
  | speed {w v f : UInt8} {rest : List UInt8} (h : Settles v rest f) : Settles w (0x1C :: v :: rest) f

namespace Settles

variable {w f g : UInt8} {xs ys : List UInt8}

theorem append (hx : Settles w xs f) (hy : Settles f ys g) : Settles w (xs ++ ys) g := by
  induction hx with
  | nil => exact hy
  | text hc h ih => exact .text hc (ih hy)
  | speed h ih => exact .speed (ih hy)

theorem balanced (h : Settles w xs f) : Balanced xs := by
  induction h with
  | nil => exact balanced_nil
  | text hc h ih => exact (balanced_text hc).append ih
  | speed h ih => exact (balanced_bufferedSpeed _).append ih

end Settles

theorem settles_speed (w v : UInt8) : Settles w [0x1C, v] v := .speed .nil

theorem settles_bars (n : Nat) (w : UInt8) : Settles w (List.replicate n '|'.toUInt8) w := by
  induction n with
  | zero => exact .nil
  | succ n ih => exact .text (by decide) ih

theorem settles_pushChar {char : CharType} {c : UInt8} (hc : 32 ≤ plainChar char c) {s : TextState} {w : UInt8}
    (h : Settles w s.result s.currentSpeed) : Settles w (s.pushChar c).result (s.pushChar c).currentSpeed := by
  have hup := toUpper_not_command (not_command_of_le hc)
  refine h.append (.text hup ?_)
  split
  · exact settles_bars 4 _
  · exact .nil

/-- The loop over the text is at the speed that its frames end at. -/
theorem settles_textLoop (char : CharType) (ptr : List UInt8) (s : TextState) {w : UInt8}
    (h : Settles w s.result s.currentSpeed) :
    Settles w (textLoop char ptr s).result (textLoop char ptr s).currentSpeed := by
  induction ptr, s using textLoop.induct char with
  | case1 s => simpa only [textLoop] using h
  | case2 c ptr s hstop => simpa only [textLoop, hstop, if_true] using h
  | case3 ptr s times hstop ih =>
      rw [textLoop, if_neg hstop, if_pos rfl]
      exact ih (h.append (settles_speed _ _))
  | case4 ptr s times hstop hminus ih =>
      rw [textLoop, if_neg hstop, if_neg hminus, if_pos rfl]
      exact ih (h.append (settles_speed _ _))
  | case5 ptr s hstop hminus hplus ih =>
      rw [textLoop, if_neg hstop, if_neg hminus, if_neg hplus, if_pos rfl]
      exact ih h
  | case6 c ptr s hstop hminus hplus htilde ih =>
      rw [textLoop, if_neg hstop, if_neg hminus, if_neg hplus, if_neg htilde]
      refine ih ?_
      split
      · rename_i hc
        exact settles_pushChar hc h
      · exact h

/-- A text message ends at the speed it began at. -/
theorem settles_textMessage (char : CharType) (message : List UInt8) (speed : UInt8) :
    Settles speed (textMessage char message speed) speed := by
  have hloop := settles_textLoop char message ⟨speed, false, []⟩ (w := speed) .nil
  rw [textMessage]
  split
  · exact hloop.append (settles_speed _ _)
  · rename_i hsame
    rw [not_not.mp hsame] at hloop
    rw [List.append_nil]
    exact hloop

theorem balanced_textMessage (char : CharType) (input : List UInt8) (initialSpeed : UInt8) :
    Balanced (textMessage char input initialSpeed) := (settles_textMessage char input initialSpeed).balanced

theorem escapeCommand_frames {command initialSpeed : UInt8} {text bytes : List UInt8}
    (h : escapeCommand command text initialSpeed = .ok bytes) :
    Balanced bytes ∨ ∃ seconds, bytes = [0x0B, 1, seconds] := by
  have hspeed (v : UInt8) : Balanced [0x02, v] := balanced_immediate (by decide) (by decide) (by decide) v
  have hweight (v : UInt8) : Balanced [0x03, v] := balanced_immediate (by decide) (by decide) (by decide) v
  cases escape_of_ok h with
  | speed | up | down => exact .inl (hspeed _)
  | abort => exact .inl balanced_clear
  | weight => exact .inl (hweight _)
  | tune seconds => exact .inr ⟨seconds, rfl⟩
  | unknown => exact .inl balanced_nil

/-- Whatever the message, its translation is whole frames that do not key, or the
tuning command. -/
theorem toWinkeyer_frames {char : CharType} {message bytes : List UInt8} {initialSpeed : UInt8}
    (h : toWinkeyer char message initialSpeed = .ok bytes) :
    Balanced bytes ∨ ∃ seconds, bytes = [0x0B, 1, seconds] := by
  simp only [toWinkeyer] at h
  split at h
  · cases h
    exact .inl (balanced_textMessage char message initialSpeed)
  · exact escapeCommand_frames h

end Cwsd.WinkeyerFeed

import Cwsd.CwdaemonServer
import Cwsd.WinkeyerEffects

namespace Cwsd.MessageEffects

open KeyerMachine WinkeyerData CwDaemon Stoi CwdaemonServer WinkeyerFeed FrameParser WinkeyerEffects

def Ready (p : FrameParser) : Prop := p.AtBoundary ∧ p.arguments ≠ []

/-- Fed between frames, the bytes have these effects and end between frames. -/
def Emits (bytes : List UInt8) (es : List Effect) : Prop :=
  ∀ p, Ready p → Ready (p.feedAll bytes) ∧ effects bytes p = es

theorem effects_append (xs ys : List UInt8) (p : FrameParser) :
    effects (xs ++ ys) p = effects xs p ++ effects ys (p.feedAll xs) := by
  induction xs generalizing p with
  | nil => rfl
  | cons c xs ih =>
      rw [List.cons_append, effects, effects, ih, List.append_assoc]
      rfl

theorem emits_nil : Emits [] [] := fun _ hp => ⟨hp, rfl⟩

theorem Emits.append {xs ys : List UInt8} {es fs : List Effect} (hx : Emits xs es) (hy : Emits ys fs) :
    Emits (xs ++ ys) (es ++ fs) := by
  intro p hp
  obtain ⟨hready, heffects⟩ := hx p hp
  rw [feedAll_append, effects_append, heffects]
  obtain ⟨hready', heffects'⟩ := hy _ hready
  exact ⟨hready', by rw [heffects']⟩

theorem emits_text {c : UInt8} (hc : isWinkeyerCommand c = false) : Emits [c] [.put c] := by
  rintro ⟨waiting, pending, index, arguments, remaining⟩ ⟨⟨hw, hr⟩, ha⟩
  dsimp only at hw hr ha
  subst hw hr
  simp [Ready, AtBoundary, feedAll, effects, effect, feed, Starts, hc, ha]

theorem emits_bufferedSpeed (wpm : UInt8) : Emits [0x1C, wpm] [.put 0x1C, .put wpm] := by
  rintro ⟨waiting, pending, index, arguments, remaining⟩ ⟨⟨hw, hr⟩, ha⟩
  dsimp only at hw hr ha
  subst hw hr
  have hcmd : isWinkeyerCommand 0x1C = true := by decide
  have hbuf : isWinkeyerBufferedCommand 0x1C = true := by decide
  have hone : UInt8.ofNat (parameterCount 0x1C) = 1 := by decide
  simp [Ready, AtBoundary, feedAll, effects, effect, feed, Starts, hcmd, hbuf, hone, ha]

theorem emits_immediate {c : UInt8} (hc : ¬ FrameHead c) (hone : UInt8.ofNat (parameterCount c) = 1)
    (argument : UInt8) (hclear : c ≠ 0x0A) :
    Emits [c, argument] (if c = 0x02 then [.speed argument] else []) := by
  rintro ⟨waiting, pending, index, arguments, remaining⟩ ⟨⟨hw, hr⟩, ha⟩
  dsimp only at hw hr ha
  subst hw hr
  obtain ⟨hcmd, hbuf⟩ := not_not.mp ((frameHead_iff c).not.mp hc)
  cases arguments with
  | nil => exact absurd rfl ha
  | cons first others =>
      simp [Ready, AtBoundary, feedAll, effects, effect, feed, Starts, execution, hcmd, hbuf, hone, hclear]

theorem emits_speed (wpm : UInt8) : Emits [0x02, wpm] [.speed wpm] :=
  emits_immediate (by decide) (by decide) wpm (by decide)

theorem emits_clear : Emits [0x0A] [.clear] := by
  rintro ⟨waiting, pending, index, arguments, remaining⟩ ⟨⟨hw, hr⟩, ha⟩
  dsimp only at hw hr ha
  subst hw hr
  have hcmd : isWinkeyerCommand 0x0A = true := by decide
  have hbuf : isWinkeyerBufferedCommand 0x0A = false := by decide
  have hzero : UInt8.ofNat (parameterCount 0x0A) = 0 := by decide
  simp [Ready, AtBoundary, feedAll, effects, effect, feed, Starts, execution, hcmd, hbuf, hzero, ha]

theorem emits_of_settles {w f : UInt8} {xs : List UInt8} (h : Settles w xs f) : Emits xs (xs.map .put) := by
  induction h with
  | nil => exact emits_nil
  | text hc h ih => exact (emits_text hc).append ih
  | speed h ih => exact (emits_bufferedSpeed _).append ih

/-- The speed v is the one that an escape command asks for when the set speed is speed. -/
def SetsSpeed (message : List UInt8) (speed v : UInt8) : Prop :=
  ∃ value, stoi (message.drop 2) = .ok value ∧
    (message.getD 1 0 = '2'.toUInt8 ∧ v = UInt8.ofInt value ∨
      message.getD 1 0 = 'u'.toUInt8 ∧ v = speed + UInt8.ofInt value ∨
      message.getD 1 0 = 'd'.toUInt8 ∧ v = speed - UInt8.ofInt value)

instance (message : List UInt8) (speed v : UInt8) : Decidable (SetsSpeed message speed v) :=
  match hs : stoi (message.drop 2) with
  | .ok value =>
      decidable_of_iff (message.getD 1 0 = '2'.toUInt8 ∧ v = UInt8.ofInt value ∨
        message.getD 1 0 = 'u'.toUInt8 ∧ v = speed + UInt8.ofInt value ∨
        message.getD 1 0 = 'd'.toUInt8 ∧ v = speed - UInt8.ofInt value)
        ⟨fun h => ⟨value, hs, h⟩, fun ⟨_, hv, h⟩ => Except.ok.inj (hs.symm.trans hv) ▸ h⟩
  | .error _ => isFalse fun ⟨_, hv, _⟩ => nomatch hs.symm.trans hv

/-- Everything a message can do to the buffer and the speeds. -/
inductive Translation (char : CharType) (message : List UInt8) (speed : UInt8) : List Effect → Prop
  | text (htext : message.headD 0 ≠ esc) : Translation char message speed
      ((textMessage char message speed).map .put)
  | speed (hesc : message.headD 0 = esc) (v : UInt8) (hv : SetsSpeed message speed v) :
      Translation char message speed [.speed v]
  | clear (hesc : message.headD 0 = esc) (hc : message.getD 1 0 = '4'.toUInt8) :
      Translation char message speed [.clear]
  | silent (hesc : message.headD 0 = esc) : Translation char message speed []

/-- What client_worker feeds of a translation: a tuning command loses its seconds. -/
def commandBytes (wkData : List UInt8) : List UInt8 :=
  if isTuningCommand wkData then wkData.dropLast else wkData

theorem commandBytes_of_balanced {bytes : List UInt8} (h : Balanced bytes) : commandBytes bytes = bytes := by
  rw [commandBytes, h.not_tuning]
  rfl

theorem translation_of_ok {char : CharType} {message wkData : List UInt8} {speed : UInt8}
    (hw : toWinkeyer char message speed = .ok wkData) :
    ∃ es, Translation char message speed es ∧ Emits (commandBytes wkData) es := by
  simp only [toWinkeyer] at hw
  split at hw
  · rename_i htext
    cases hw
    refine ⟨_, .text htext, ?_⟩
    rw [commandBytes_of_balanced (balanced_textMessage char message speed)]
    exact emits_of_settles (settles_textMessage char message speed)
  · rename_i hesc
    rw [not_not] at hesc
    cases escape_of_ok hw with
    | speed value hc hv => exact ⟨_, .speed hesc _ ⟨value, hv, .inl ⟨hc, rfl⟩⟩, emits_speed _⟩
    | up delta hc hv => exact ⟨_, .speed hesc _ ⟨delta, hv, .inr (.inl ⟨hc, rfl⟩)⟩, emits_speed _⟩
    | down delta hc hv => exact ⟨_, .speed hesc _ ⟨delta, hv, .inr (.inr ⟨hc, rfl⟩)⟩, emits_speed _⟩
    | abort hc => exact ⟨_, .clear hesc hc, emits_clear⟩
    | weight value hc => exact ⟨_, .silent hesc, emits_immediate (by decide) (by decide) value (by decide)⟩
    | tune seconds hc => exact ⟨_, .silent hesc, emits_immediate (by decide) (by decide) 1 (by decide)⟩
    | unknown => exact ⟨_, .silent hesc, emits_nil⟩

theorem emits_carrierOff : Emits carrierOff [] := emits_immediate (by decide) (by decide) 0 (by decide)

end Cwsd.MessageEffects

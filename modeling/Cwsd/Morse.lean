import Mathlib.Data.Rat.Floor

namespace Cwsd

/-- The arithmetic the source does in float: the operations, the conversions
from integers, the literals and the truncating conversions to integers. The
model leaves the number format open, so what is proved about the keyer holds for
single precision and for exact arithmetic alike. -/
class SinglePrecision (F : Type) extends Add F, Sub F, Mul F, Div F, NatCast F, OfScientific F where
  abs : F → F
  le : F → F → Bool
  toUInt32 : F → UInt32
  toUInt8 : F → UInt8

instance : SinglePrecision ℚ where
  abs q := |q|
  le a b := decide (a ≤ b)
  toUInt32 q := UInt32.ofNat ⌊q⌋.toNat
  toUInt8 q := UInt8.ofNat ⌊q⌋.toNat

/-- Bytes convert to the number format and back without loss. -/
class ExactBytes (F : Type) [SinglePrecision F] : Prop where
  toUInt8_cast : ∀ c : UInt8, SinglePrecision.toUInt8 (c.toNat : F) = c

instance : ExactBytes ℚ where
  toUInt8_cast c := by
    have hfloor : ⌊(c.toNat : ℚ)⌋.toNat = c.toNat := by simp
    exact (congrArg UInt8.ofNat hfloor).trans UInt8.ofNat_toNat

theorem ExactBytes.cast_inj {F : Type} [SinglePrecision F] [ExactBytes F] {c d : UInt8} :
    (c.toNat : F) = (d.toNat : F) ↔ c = d := by
  refine ⟨fun h => ?_, fun h => by rw [h]⟩
  rw [← toUInt8_cast (F := F) c, h, toUInt8_cast]

namespace Morse

structure CodeTimings (F : Type) where
  ditMs : F
  dahMs : F
  spaceBetweenCharsMs : F
  spaceBetweenWordsMs : F
  weightedDitMs : F
  weightedDahMs : F
  weightedInterElementSpaceMs : F
  deriving DecidableEq

structure CodeStyle (F : Type) where
  impulsesBetweenWords : UInt8
  impulsesBetweenCharacters : UInt8
  autospaceEnabled : Bool
  dahDitRatio : F
  weighting : F
  extraLetterspacePercent : F
  keyingCompensationMs : F
  characterWpm : F
  farnsworthWpm : F
  speedLow : F
  speedHigh : F
  dahDitRatioLow : F
  dahDitRatioHigh : F
  extraLetterspacePercentLow : F
  extraLetterspacePercentHigh : F
  deriving DecidableEq

section

variable {F : Type} [SinglePrecision F]

def CodeStyle.default : CodeStyle F :=
  { impulsesBetweenWords := 6, impulsesBetweenCharacters := 3, autospaceEnabled := true,
    dahDitRatio := 3.0, weighting := 50.0, extraLetterspacePercent := 0.0,
    keyingCompensationMs := 0.0, characterWpm := 24.0, farnsworthWpm := 24.0,
    speedLow := 20.0, speedHigh := 40.0, dahDitRatioLow := 3.0, dahDitRatioHigh := 3.0,
    extraLetterspacePercentLow := 0.0, extraLetterspacePercentHigh := 0.0 }

def numberOfDotsInParis : Nat := 10
def numberOfSilentDotsInParis : Nat := 9
def numberOfDashesInParis : Nat := 4
def numberOfCharSpacesInParis : Nat := 4

/-- Four times the impulses between characters plus those between words; the
source adds them as integers before the conversion. -/
def CodeStyle.spaceImpulsesInParis (s : CodeStyle F) : F :=
  ((numberOfCharSpacesInParis * s.impulsesBetweenCharacters.toNat +
    s.impulsesBetweenWords.toNat : Nat) : F)

def CodeStyle.nonSpaceImpulsesInParis (s : CodeStyle F) : F :=
  ((numberOfDotsInParis + numberOfSilentDotsInParis : Nat) : F) +
    ((numberOfDashesInParis : Nat) : F) * s.dahDitRatio

def map (speed speedMin speedMax valueMin valueMax : F) : F :=
  if SinglePrecision.le (SinglePrecision.abs (speedMax - speedMin)) 0.001 then valueMin
  else if SinglePrecision.le speed speedMin then valueMin
  else if SinglePrecision.le speedMax speed then valueMax
  else
    let alpha := (speed - speedMin) / (speedMax - speedMin)
    valueMin + alpha * (valueMax - valueMin)

def CodeStyle.interpolate (s : CodeStyle F) : CodeStyle F :=
  { s with
    dahDitRatio := map s.characterWpm s.speedLow s.speedHigh s.dahDitRatioLow s.dahDitRatioHigh
    extraLetterspacePercent := map s.characterWpm s.speedLow s.speedHigh
      s.extraLetterspacePercentLow s.extraLetterspacePercentHigh }

def CodeStyle.timings (s : CodeStyle F) : CodeTimings F :=
  let impulsesPerMinute := s.characterWpm * (s.nonSpaceImpulsesInParis + s.spaceImpulsesInParis)
  let ditMs := (60.0 / impulsesPerMinute) * 1000.0
  let dahMs := ditMs * s.dahDitRatio
  -- The spacings the source derives from ditMs here are overwritten below before any use.
  let onMsPerMinute := s.nonSpaceImpulsesInParis * s.farnsworthWpm * ditMs
  let offMsPerMinute := (60.0 * 1000.0) - onMsPerMinute
  let pauseImpulseMs := offMsPerMinute / (s.spaceImpulsesInParis * s.farnsworthWpm)
  let weight := s.weighting / 50.0
  let weightedDitMs := ditMs * weight + s.keyingCompensationMs
  let weightedDahMs := dahMs * weight + s.keyingCompensationMs
  let interElementSpaceMs := ditMs * (100.0 - s.weighting) / 50.0 - s.keyingCompensationMs
  { ditMs, dahMs, weightedDitMs, weightedDahMs
    spaceBetweenCharsMs := (s.impulsesBetweenCharacters.toNat : F) * pauseImpulseMs
    spaceBetweenWordsMs := (s.impulsesBetweenWords.toNat : F) * pauseImpulseMs
    weightedInterElementSpaceMs :=
      interElementSpaceMs + (3.0 * weightedDitMs) * s.extraLetterspacePercent / 100.0 }

/-- calculate_timings returns the timings and leaves the interpolated style behind. -/
def CodeStyle.calculateTimings (s : CodeStyle F) : CodeTimings F × CodeStyle F :=
  (s.interpolate.timings, s.interpolate)

end

end Morse

end Cwsd

import Cwsd.Morse
import Mathlib.Tactic.FieldSimp
import Mathlib.Tactic.Linarith
import Mathlib.Tactic.LinearCombination
import Mathlib.Tactic.Ring

namespace Cwsd.MorseTimings

open Morse

section

variable (s : CodeStyle ℚ)

def spaceImpulses : ℚ := 4 * s.impulsesBetweenCharacters.toNat + s.impulsesBetweenWords.toNat

/-- The impulses of PARIS for the ratio of the style, spaces included. -/
def impulses : ℚ := 19 + 4 * s.dahDitRatio + spaceImpulses s

/-- What is left of a minute for each impulse of space. -/
def pauseImpulseMs : ℚ :=
  (60000 - (19 + 4 * s.dahDitRatio) * s.farnsworthWpm * s.timings.ditMs) / (spaceImpulses s * s.farnsworthWpm)

theorem nonSpaceImpulsesInParis_eq : s.nonSpaceImpulsesInParis = 19 + 4 * s.dahDitRatio := by
  simp only [CodeStyle.nonSpaceImpulsesInParis, numberOfDotsInParis, numberOfSilentDotsInParis,
    numberOfDashesInParis]
  norm_num

theorem spaceImpulsesInParis_eq : s.spaceImpulsesInParis = spaceImpulses s := by
  simp only [CodeStyle.spaceImpulsesInParis, numberOfCharSpacesInParis, spaceImpulses]
  push_cast
  rfl

theorem ditMs_eq : s.timings.ditMs = 60000 / (s.characterWpm * impulses s) := by
  change (60.0 : ℚ) / (s.characterWpm * (s.nonSpaceImpulsesInParis + s.spaceImpulsesInParis)) * (1000.0 : ℚ) = _
  rw [nonSpaceImpulsesInParis_eq, spaceImpulsesInParis_eq, ← impulses]
  norm_num
  ring

theorem dahMs_eq : s.timings.dahMs = s.timings.ditMs * s.dahDitRatio := rfl

theorem pause_eq :
    ((60.0 : ℚ) * 1000.0 - s.nonSpaceImpulsesInParis * s.farnsworthWpm * s.timings.ditMs) /
      (s.spaceImpulsesInParis * s.farnsworthWpm) = pauseImpulseMs s := by
  rw [nonSpaceImpulsesInParis_eq, spaceImpulsesInParis_eq, pauseImpulseMs]
  norm_num

theorem spaceBetweenCharsMs_eq :
    s.timings.spaceBetweenCharsMs = s.impulsesBetweenCharacters.toNat * pauseImpulseMs s := by
  rw [← pause_eq]
  rfl

theorem spaceBetweenWordsMs_eq :
    s.timings.spaceBetweenWordsMs = s.impulsesBetweenWords.toNat * pauseImpulseMs s := by
  rw [← pause_eq]
  rfl

theorem weightedDitMs_eq :
    s.timings.weightedDitMs = s.timings.ditMs * (s.weighting / 50) + s.keyingCompensationMs := by
  change s.timings.ditMs * (s.weighting / (50.0 : ℚ)) + s.keyingCompensationMs = _
  norm_num

theorem weightedDahMs_eq :
    s.timings.weightedDahMs = s.timings.dahMs * (s.weighting / 50) + s.keyingCompensationMs := by
  change s.timings.dahMs * (s.weighting / (50.0 : ℚ)) + s.keyingCompensationMs = _
  norm_num

theorem weightedInterElementSpaceMs_eq :
    s.timings.weightedInterElementSpaceMs =
      s.timings.ditMs * (100 - s.weighting) / 50 - s.keyingCompensationMs +
        3 * s.timings.weightedDitMs * s.extraLetterspacePercent / 100 := by
  change s.timings.ditMs * ((100.0 : ℚ) - s.weighting) / (50.0 : ℚ) - s.keyingCompensationMs +
    ((3.0 : ℚ) * s.timings.weightedDitMs) * s.extraLetterspacePercent / (100.0 : ℚ) = _
  norm_num

theorem map_const (speed low high v : ℚ) : map speed low high v v = v := by
  simp only [map]
  split
  · rfl
  · split
    · rfl
    · split
      · rfl
      · ring

end

/-- The timings are normalised to the word PARIS: at the farnsworth speed the unweighted
word takes its share of a minute, without farnsworth spacing every space is its impulses
of the dit, and weighting and compensation move time between the dit and its space. -/
theorem timings_normalised (s : CodeStyle ℚ) (hchar : 0 < s.characterWpm) (hfarn : 0 < s.farnsworthWpm)
    (hratio : 0 < s.interpolate.dahDitRatio) (hchars : 0 < s.impulsesBetweenCharacters) :
    ((19 + 4 * s.calculateTimings.2.dahDitRatio) * s.calculateTimings.1.ditMs +
        4 * s.calculateTimings.1.spaceBetweenCharsMs + s.calculateTimings.1.spaceBetweenWordsMs) *
      s.farnsworthWpm = 60000 ∧
    (s.farnsworthWpm = s.characterWpm →
      s.calculateTimings.1.spaceBetweenCharsMs = s.impulsesBetweenCharacters.toNat * s.calculateTimings.1.ditMs ∧
      s.calculateTimings.1.spaceBetweenWordsMs = s.impulsesBetweenWords.toNat * s.calculateTimings.1.ditMs) ∧
    (s.extraLetterspacePercentLow = 0 → s.extraLetterspacePercentHigh = 0 →
      s.calculateTimings.1.weightedDitMs + s.calculateTimings.1.weightedInterElementSpaceMs =
        2 * s.calculateTimings.1.ditMs) := by
  have hspace : 0 < spaceImpulses s.interpolate := by
    have hc : (0 : ℚ) < s.impulsesBetweenCharacters.toNat := by exact_mod_cast UInt8.lt_iff_toNat_lt.mp hchars
    have hw : (0 : ℚ) ≤ s.impulsesBetweenWords.toNat := by positivity
    change 0 < 4 * (s.impulsesBetweenCharacters.toNat : ℚ) + s.impulsesBetweenWords.toNat
    linarith
  have himpulses : 0 < impulses s.interpolate := by
    rw [impulses]
    linarith
  have hdit : s.characterWpm * impulses s.interpolate * s.interpolate.timings.ditMs = 60000 := by
    have hchar' : s.interpolate.characterWpm = s.characterWpm := rfl
    rw [ditMs_eq, hchar']
    field_simp
  have hpause : spaceImpulses s.interpolate * s.farnsworthWpm * pauseImpulseMs s.interpolate =
      60000 - (19 + 4 * s.interpolate.dahDitRatio) * s.farnsworthWpm * s.interpolate.timings.ditMs := by
    have hfarn' : s.interpolate.farnsworthWpm = s.farnsworthWpm := rfl
    rw [pauseImpulseMs, hfarn']
    field_simp
  have hspaces : 4 * s.interpolate.timings.spaceBetweenCharsMs + s.interpolate.timings.spaceBetweenWordsMs =
      spaceImpulses s.interpolate * pauseImpulseMs s.interpolate := by
    rw [spaceBetweenCharsMs_eq, spaceBetweenWordsMs_eq, spaceImpulses]
    ring
  simp only [CodeStyle.calculateTimings]
  refine ⟨?_, fun hsame => ?_, fun hlow hhigh => ?_⟩
  · rw [add_assoc, hspaces]
    linear_combination hpause
  · have hequal : pauseImpulseMs s.interpolate = s.interpolate.timings.ditMs := by
      have hpos : spaceImpulses s.interpolate * s.farnsworthWpm ≠ 0 := by positivity
      apply mul_left_cancel₀ hpos
      rw [hpause, ← hdit, hsame, impulses]
      ring
    rw [spaceBetweenCharsMs_eq, spaceBetweenWordsMs_eq, hequal]
    exact ⟨rfl, rfl⟩
  · have hextra : s.interpolate.extraLetterspacePercent = 0 := by
      simp only [CodeStyle.interpolate, hlow, hhigh, map_const]
    rw [weightedInterElementSpaceMs_eq, hextra, weightedDitMs_eq]
    ring

theorem default_normalised :
    ((19 + 4 * (CodeStyle.default : CodeStyle ℚ).calculateTimings.2.dahDitRatio) *
        (CodeStyle.default : CodeStyle ℚ).calculateTimings.1.ditMs +
        4 * (CodeStyle.default : CodeStyle ℚ).calculateTimings.1.spaceBetweenCharsMs +
        (CodeStyle.default : CodeStyle ℚ).calculateTimings.1.spaceBetweenWordsMs) *
      (CodeStyle.default : CodeStyle ℚ).farnsworthWpm = 60000 :=
  (timings_normalised CodeStyle.default (by decide +kernel) (by decide +kernel) (by decide +kernel) (by decide)).1

end Cwsd.MorseTimings

import Cwsd.KeyerMachine
import Cwsd.ProfileSetters

namespace Cwsd.ElementTimings

open Morse KeyerState KeyerMachine MorseTimings ProfileSetters

section

variable {F : Type} [SinglePrecision F]

-- The lengths once more, with the conversion of a result to whole milliseconds as a parameter.

def elementLength (cut : F → F) (k : Keyer F) (e : Element) : F :=
  cut <|
    if k.winkeyerEnabled then
      if e = .dit then ((1200 : Nat) : F) / k.winkeyerSpeedWpm
      else (((1200 : Nat) : F) * k.profile.style.dahDitRatio) / k.winkeyerSpeedWpm
    else if e = .dit then k.profile.timings.weightedDitMs
    else k.profile.timings.weightedDahMs

def weightedElementLength (cut : F → F) (k : Keyer F) (e : Element) : F :=
  cut <|
    if k.winkeyerEnabled then elementLength cut k e * k.profile.style.weighting / 50.0
    else if e = .dit then k.profile.timings.weightedDitMs
    else k.profile.timings.weightedDahMs

def interElementSpaceLength (cut : F → F) (k : Keyer F) : F :=
  cut <|
    if k.winkeyerEnabled then
      elementLength cut k .dit * ((((100 : Nat) : F) - k.profile.style.weighting) / 50.0)
    else k.profile.timings.weightedInterElementSpaceMs

/-- The conversion that the source makes. -/
def wholeMs (x : F) : F := ((SinglePrecision.toUInt32 x).toNat : F)

theorem weightedElementLength_wholeMs (k : Keyer F) (e : Element) :
    weightedElementLength wholeMs k e = ((weightedElementLengthMs k e).toNat : F) := rfl

theorem interElementSpaceLength_wholeMs (k : Keyer F) :
    interElementSpaceLength wholeMs k = ((interElementSpaceLengthMs k).toNat : F) := rfl

def sendSpeed (w : UInt8) (k : Keyer F) : Keyer F := winkeyerData w (winkeyerData 0x02 k)

theorem sendSpeed_eq (w : UInt8) {k : Keyer F} (hwaiting : k.winkeyerWaitingForArguments = 0)
    (hremaining : k.winkeyerRemainingBufferedArguments = 0) (harguments : k.winkeyerArguments.length = 15) :
    (sendSpeed w k).winkeyerSpeedWpm = (w.toNat : F) ∧
      (sendSpeed w k).profile = k.profile.setSpeed (w.toNat : F) ∧
      (sendSpeed w k).winkeyerEnabled = k.winkeyerEnabled := by
  obtain ⟨a, rest, hcons⟩ := List.exists_cons_of_length_eq_add_one harguments
  have hcommand : winkeyerData 0x02 k =
      { k with winkeyerPendingCommand := 0x02, winkeyerWaitingForArguments := 1, winkeyerArgumentIndex := 0 } := by
    simp [winkeyerData, hwaiting, hremaining, isWinkeyerCommand, isWinkeyerBufferedCommand, parameterCount,
      winkeyCommandsParameterCount]
  rw [sendSpeed, hcommand]
  simp [winkeyerData, hcons, executePending, emit]

end

/-- Before the truncation to milliseconds, the elements and the spaces of the WinKeyer path
are those of the profile. -/
def PathsAgree (k : Keyer ℚ) : Prop :=
  weightedElementLength id k .dit = k.profile.timings.weightedDitMs ∧
    weightedElementLength id k .dah = k.profile.timings.weightedDahMs ∧
    interElementSpaceLength id k = k.profile.timings.weightedInterElementSpaceMs

section

variable {k : Keyer ℚ} {s : CodeStyle ℚ}

theorem weightedDit_eq (henabled : k.winkeyerEnabled = true) (hstyle : k.profile.style = s)
    (hspeed : k.winkeyerSpeedWpm = s.characterWpm) :
    weightedElementLength id k .dit = 1200 / s.characterWpm * (s.weighting / 50) := by
  simp only [weightedElementLength, elementLength, henabled, hspeed, hstyle, if_true, id_eq]
  norm_num
  ring

theorem weightedDah_eq (henabled : k.winkeyerEnabled = true) (hstyle : k.profile.style = s)
    (hspeed : k.winkeyerSpeedWpm = s.characterWpm) :
    weightedElementLength id k .dah = 1200 / s.characterWpm * s.dahDitRatio * (s.weighting / 50) := by
  simp only [weightedElementLength, elementLength, henabled, hspeed, hstyle, if_true, id_eq, reduceCtorEq,
    if_false]
  norm_num
  ring

theorem interElementSpace_eq (henabled : k.winkeyerEnabled = true) (hstyle : k.profile.style = s)
    (hspeed : k.winkeyerSpeedWpm = s.characterWpm) :
    interElementSpaceLength id k = 1200 / s.characterWpm * (100 - s.weighting) / 50 := by
  simp only [interElementSpaceLength, elementLength, henabled, hspeed, hstyle, if_true, id_eq]
  norm_num
  ring

theorem impulses_eq (hchars : s.impulsesBetweenCharacters = 3) (hwords : s.impulsesBetweenWords = 6) :
    impulses s = 37 + 4 * s.dahDitRatio := by
  have hspaces : spaceImpulses s = 18 := by
    rw [spaceImpulses, hchars, hwords]
    change 4 * ((3 : Nat) : ℚ) + ((6 : Nat) : ℚ) = 18
    norm_num
  rw [impulses, hspaces]
  ring

theorem dit_eq_iff {wpm ratio : ℚ} (hpos : 0 < wpm) :
    1200 / wpm = 60000 / (wpm * (37 + 4 * ratio)) ↔ ratio = 13 / 4 := by
  constructor
  · intro hdits
    have hne : 37 + 4 * ratio ≠ 0 := by
      intro hzero
      rw [hzero, mul_zero, div_zero] at hdits
      exact absurd hdits (by positivity)
    rw [div_eq_div_iff hpos.ne' (mul_ne_zero hpos.ne' hne)] at hdits
    have hcancel : wpm * (1200 * (37 + 4 * ratio)) = wpm * 60000 := by
      linear_combination hdits
    have hfifty := mul_left_cancel₀ hpos.ne' hcancel
    linarith
  · rintro rfl
    field_simp
    norm_num

theorem pathsAgree_iff (henabled : k.winkeyerEnabled = true) (hstyle : k.profile.style = s)
    (htimings : k.profile.timings = s.timings) (hspeed : k.winkeyerSpeedWpm = s.characterWpm)
    (hpos : 0 < s.characterWpm) (hchars : s.impulsesBetweenCharacters = 3) (hwords : s.impulsesBetweenWords = 6)
    (hcompensation : s.keyingCompensationMs = 0) (hletterspace : s.extraLetterspacePercent = 0)
    (hweighting : 0 < s.weighting) : PathsAgree k ↔ s.dahDitRatio = 13 / 4 := by
  rw [PathsAgree, weightedDit_eq henabled hstyle hspeed, weightedDah_eq henabled hstyle hspeed,
    interElementSpace_eq henabled hstyle hspeed, htimings, weightedDitMs_eq, weightedDahMs_eq,
    weightedInterElementSpaceMs_eq, dahMs_eq, hcompensation, hletterspace, ditMs_eq, impulses_eq hchars hwords,
    ← dit_eq_iff hpos]
  constructor
  · rintro ⟨hsame, -, -⟩
    have hweight : s.weighting / 50 ≠ 0 := by positivity
    rw [add_zero] at hsame
    exact mul_right_cancel₀ hweight hsame
  · intro hdits
    rw [← hdits]
    refine ⟨?_, ?_, ?_⟩ <;> ring

end

/-- The two paths to the length of an element agree, for any speed and any weighting, exactly
when PARIS counts 50 impulses: with the default spaces, where the speed meets the line between the
ratios set for the low and the high speed at 13 to 4. -/
theorem element_timings_agree_iff (k : Keyer ℚ) (w : UInt8) (hw : 0 < w)
    (henabled : k.winkeyerEnabled = true) (hwaiting : k.winkeyerWaitingForArguments = 0)
    (hremaining : k.winkeyerRemainingBufferedArguments = 0) (harguments : k.winkeyerArguments.length = 15)
    (hchars : k.profile.style.impulsesBetweenCharacters = 3) (hwords : k.profile.style.impulsesBetweenWords = 6)
    (hcompensation : k.profile.style.keyingCompensationMs = 0)
    (hlow : k.profile.style.extraLetterspacePercentLow = 0)
    (hhigh : k.profile.style.extraLetterspacePercentHigh = 0)
    (hweighting : 10 ≤ k.profile.style.weighting ∧ k.profile.style.weighting ≤ 90) :
    PathsAgree (sendSpeed w k) ↔
      OnLine (w.toNat : ℚ) k.profile.style.speedLow k.profile.style.speedHigh (13 / 4)
        k.profile.style.dahDitRatioLow k.profile.style.dahDitRatioHigh := by
  obtain ⟨hspeed, hprofile, hkeeps⟩ := sendSpeed_eq w hwaiting hremaining harguments
  have hpos : (0 : ℚ) < w.toNat := by exact_mod_cast UInt8.lt_iff_toNat_lt.mp hw
  have hletterspace : (k.profile.setSpeed (w.toNat : ℚ)).style.extraLetterspacePercent = 0 := by
    simp only [Profile.setSpeed, Profile.updateTimings, CodeStyle.calculateTimings, CodeStyle.interpolate, hlow,
      hhigh, map_const]
  have hweight : 0 < (k.profile.setSpeed (w.toNat : ℚ)).style.weighting := by
    change 0 < k.profile.style.weighting
    linarith [hweighting.1]
  rw [onLine_iff, eq_comm]
  exact pathsAgree_iff (hkeeps.trans henabled) (congrArg Profile.style hprofile) (congrArg Profile.timings hprofile)
    hspeed hpos hchars hwords hcompensation hletterspace hweight

def withRatio (ratio : ℚ) : Keyer ℚ :=
  { Keyer.zero with
    winkeyerEnabled := true
    profile := { Profile.zero with
      style := { (CodeStyle.default : CodeStyle ℚ) with dahDitRatioLow := ratio, dahDitRatioHigh := ratio } } }

theorem fiftyImpulses_agree : PathsAgree (sendSpeed 24 (withRatio (13 / 4))) :=
  (element_timings_agree_iff (withRatio (13 / 4)) 24 (by decide) rfl rfl rfl rfl rfl rfl (by decide +kernel)
    (by decide +kernel) (by decide +kernel) (by decide +kernel)).mpr (by rw [onLine_iff]; decide +kernel)

/-- With the default ratio PARIS counts 49 impulses: a dit is 50 ms on one path and 51.02 ms
on the other. -/
theorem defaultStyle_differs :
    weightedElementLength id (sendSpeed 24 (withRatio 3)) .dit = 50 ∧
    (sendSpeed 24 (withRatio 3)).profile.timings.weightedDitMs = 2500 / 49 ∧
    ¬ PathsAgree (sendSpeed 24 (withRatio 3)) := by
  have hlength : weightedElementLength id (sendSpeed 24 (withRatio 3)) .dit = 50 := by decide +kernel
  have htimings : (sendSpeed 24 (withRatio 3)).profile.timings.weightedDitMs = 2500 / 49 := by decide +kernel
  refine ⟨hlength, htimings, fun h => ?_⟩
  have hsame := h.1
  rw [hlength, htimings] at hsame
  exact absurd hsame (by decide +kernel)

end Cwsd.ElementTimings

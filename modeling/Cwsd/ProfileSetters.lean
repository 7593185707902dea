import Cwsd.KeyerState
import Cwsd.MorseTimings
import Cwsd.Replay

namespace Cwsd.ProfileSetters

open Morse MorseTimings KeyerState Replay

section

variable {F : Type} [SinglePrecision F]

def setDahDitRatio (p : Profile F) (ratio : F) : Profile F :=
  { p with style := { p.style with dahDitRatio := ratio } }.updateTimings

def setLetterspace (p : Profile F) (percent : UInt8) : Profile F :=
  { p with style := { p.style with extraLetterspacePercent := (percent.toNat : F) } }.updateTimings

def setKeyingCompensation (p : Profile F) (ms : UInt8) : Profile F :=
  { p with style := { p.style with keyingCompensationMs := (ms.toNat : F) } }.updateTimings

end

/-- The setters of a profile. -/
inductive Call (F : Type)
  | setSpeed (wpm : F)
  | setDahDitRatio (ratio : F)
  | setWeighting (weighting : UInt8)
  | setLetterspace (percent : UInt8)
  | setKeyingCompensation (ms : UInt8)

namespace Call

variable {F : Type}

def apply [SinglePrecision F] (p : Profile F) : Call F → Profile F
  | .setSpeed wpm => p.setSpeed wpm
  | .setDahDitRatio ratio => ProfileSetters.setDahDitRatio p ratio
  | .setWeighting weighting => p.setWeighting weighting
  | .setLetterspace percent => ProfileSetters.setLetterspace p percent
  | .setKeyingCompensation ms => ProfileSetters.setKeyingCompensation p ms

def speed : Call F → Option F
  | .setSpeed wpm => some wpm
  | _ => none

def ratio : Call F → Option F
  | .setDahDitRatio ratio => some ratio
  | _ => none

def weighting [NatCast F] : Call F → Option F
  | .setWeighting weighting => some (weighting.toNat : F)
  | _ => none

def letterspace [NatCast F] : Call F → Option F
  | .setLetterspace percent => some (percent.toNat : F)
  | _ => none

def compensation [NatCast F] : Call F → Option F
  | .setKeyingCompensation ms => some (ms.toNat : F)
  | _ => none

end Call

def run (p : Profile ℚ) (calls : List (Call ℚ)) : Profile ℚ := calls.foldl Call.apply p

/-- The value that is in effect after the calls: the last one given, or else the one the profile has. -/
def speedOf (p : Profile ℚ) (calls : List (Call ℚ)) : ℚ := (lastWrite Call.speed calls).getD p.style.characterWpm

def weightingOf (p : Profile ℚ) (calls : List (Call ℚ)) : ℚ :=
  (lastWrite Call.weighting calls).getD p.style.weighting

def compensationOf (p : Profile ℚ) (calls : List (Call ℚ)) : ℚ :=
  (lastWrite Call.compensation calls).getD p.style.keyingCompensationMs

/-- Ratio and letterspace follow the speed as long as none has been given. -/
def ratioOf (p : Profile ℚ) (calls : List (Call ℚ)) : ℚ :=
  (lastWrite Call.ratio calls).getD (run p calls).style.dahDitRatio

def letterspaceOf (p : Profile ℚ) (calls : List (Call ℚ)) : ℚ :=
  (lastWrite Call.letterspace calls).getD (run p calls).style.extraLetterspacePercent

/-- The timings are those of the values given last. -/
structure TakesEffect (p : Profile ℚ) (calls : List (Call ℚ)) : Prop where
  dit : (run p calls).timings.ditMs =
    60000 / (speedOf p calls * (19 + 4 * ratioOf p calls + spaceImpulses p.style))
  dah : (run p calls).timings.dahMs = ratioOf p calls * (run p calls).timings.ditMs
  weightedDit : (run p calls).timings.weightedDitMs =
    (run p calls).timings.ditMs * weightingOf p calls / 50 + compensationOf p calls
  elementSpace : (run p calls).timings.weightedInterElementSpaceMs =
    (run p calls).timings.ditMs * (100 - weightingOf p calls) / 50 - compensationOf p calls +
      3 * (run p calls).timings.weightedDitMs * letterspaceOf p calls / 100

/-- The value lies where the speed puts it between the bounds. -/
def OnLine (speed speedLow speedHigh value valueLow valueHigh : ℚ) : Prop :=
  if |speedHigh - speedLow| ≤ 1 / 1000 ∨ speed ≤ speedLow then value = valueLow
  else if speedHigh ≤ speed then value = valueHigh
  else (value - valueLow) * (speedHigh - speedLow) = (speed - speedLow) * (valueHigh - valueLow)

def RatioOnLine (p : Profile ℚ) (calls : List (Call ℚ)) (ratio : ℚ) : Prop :=
  OnLine (speedOf p calls) p.style.speedLow p.style.speedHigh ratio p.style.dahDitRatioLow p.style.dahDitRatioHigh

def LetterspaceOnLine (p : Profile ℚ) (calls : List (Call ℚ)) (percent : ℚ) : Prop :=
  OnLine (speedOf p calls) p.style.speedLow p.style.speedHigh percent p.style.extraLetterspacePercentLow
    p.style.extraLetterspacePercentHigh

def rate (p : Profile ℚ) (calls : List (Call ℚ)) (ratio : ℚ) : ℚ :=
  speedOf p calls * (19 + 4 * ratio + spaceImpulses p.style)

theorem line_iff {low high : ℚ} (hne : high - low ≠ 0) (speed value valueLow valueHigh : ℚ) :
    (value - valueLow) * (high - low) = (speed - low) * (valueHigh - valueLow) ↔
      value = valueLow + (speed - low) / (high - low) * (valueHigh - valueLow) := by
  rw [← eq_div_iff hne, div_mul_eq_mul_div]
  exact sub_eq_iff_eq_add'

theorem onLine_iff (speed speedLow speedHigh value valueLow valueHigh : ℚ) :
    OnLine speed speedLow speedHigh value valueLow valueHigh ↔
      value = map speed speedLow speedHigh valueLow valueHigh := by
  have hclose : SinglePrecision.le (SinglePrecision.abs (speedHigh - speedLow)) (0.001 : ℚ) = true ↔
      |speedHigh - speedLow| ≤ 1 / 1000 := by
    have hliteral : (0.001 : ℚ) = 1 / 1000 := by norm_num
    rw [hliteral]
    exact decide_eq_true_iff
  have hle (a b : ℚ) : SinglePrecision.le a b = true ↔ a ≤ b := decide_eq_true_iff
  simp only [OnLine, map, hclose, hle]
  by_cases hflat : |speedHigh - speedLow| ≤ 1 / 1000
  · rw [if_pos (Or.inl hflat), if_pos hflat]
  by_cases hlow : speed ≤ speedLow
  · rw [if_pos (Or.inr hlow), if_neg hflat, if_pos hlow]
  by_cases hhigh : speedHigh ≤ speed
  · rw [if_neg (not_or.mpr ⟨hflat, hlow⟩), if_pos hhigh, if_neg hflat, if_neg hlow, if_pos hhigh]
  · have hne : speedHigh - speedLow ≠ 0 := by
      intro hzero
      apply hflat
      rw [hzero, abs_zero]
      norm_num
    rw [if_neg (not_or.mpr ⟨hflat, hlow⟩), if_neg hhigh, if_neg hflat, if_neg hlow, if_neg hhigh]
    exact line_iff hne speed value valueLow valueHigh

/-- The timings of the profile have been calculated from its style. -/
def Fresh (p : Profile ℚ) : Prop := p.updateTimings = p

namespace Fresh

variable {p : Profile ℚ}

theorem style_eq (h : Fresh p) : p.style.interpolate = p.style := congrArg Profile.style h

theorem timings_eq (h : Fresh p) : p.timings = p.style.timings := by
  have htimings : p.style.interpolate.timings = p.timings := congrArg Profile.timings h
  rw [← htimings, h.style_eq]

end Fresh

theorem fresh_apply (p : Profile ℚ) (c : Call ℚ) : Fresh (Call.apply p c) := by cases c <;> rfl

theorem fresh_run {p : Profile ℚ} {calls : List (Call ℚ)} (h : Fresh p ∨ calls ≠ []) : Fresh (run p calls) := by
  cases List.eq_nil_or_concat calls with
  | inl hnil =>
      rw [hnil]
      exact h.resolve_right (not_not.mpr hnil)
  | inr hlast =>
      obtain ⟨before, c, rfl⟩ := hlast
      rw [run, List.concat_eq_append, List.foldl_append]
      exact fresh_apply _ c

section

variable (p : Profile ℚ) (calls : List (Call ℚ))

theorem characterWpm_run : (run p calls).style.characterWpm = speedOf p calls :=
  foldl_lastWrite (fun p => p.style.characterWpm) (fun _ c => by cases c <;> rfl) calls p

theorem weighting_run : (run p calls).style.weighting = weightingOf p calls :=
  foldl_lastWrite (fun p => p.style.weighting) (fun _ c => by cases c <;> rfl) calls p

theorem compensation_run : (run p calls).style.keyingCompensationMs = compensationOf p calls :=
  foldl_lastWrite (fun p => p.style.keyingCompensationMs) (fun _ c => by cases c <;> rfl) calls p

def bounds (s : CodeStyle ℚ) : (ℚ × ℚ) × (ℚ × ℚ) × (ℚ × ℚ) × ℚ :=
  ((s.speedLow, s.speedHigh), (s.dahDitRatioLow, s.dahDitRatioHigh),
    (s.extraLetterspacePercentLow, s.extraLetterspacePercentHigh), spaceImpulses s)

theorem bounds_run : bounds (run p calls).style = bounds p.style := by
  rw [run]
  induction calls generalizing p with
  | nil => rfl
  | cons c calls ih =>
      rw [List.foldl_cons, ih]
      cases c <;> rfl

variable {p : Profile ℚ} {calls : List (Call ℚ)}

theorem speedBounds_run (p : Profile ℚ) (calls : List (Call ℚ)) :
    (run p calls).style.speedLow = p.style.speedLow ∧ (run p calls).style.speedHigh = p.style.speedHigh :=
  Prod.mk.inj (Prod.mk.inj (bounds_run p calls)).1

theorem ratioBounds_run (p : Profile ℚ) (calls : List (Call ℚ)) :
    (run p calls).style.dahDitRatioLow = p.style.dahDitRatioLow ∧
      (run p calls).style.dahDitRatioHigh = p.style.dahDitRatioHigh :=
  Prod.mk.inj (Prod.mk.inj (Prod.mk.inj (bounds_run p calls)).2).1

theorem letterspaceBounds_run (p : Profile ℚ) (calls : List (Call ℚ)) :
    (run p calls).style.extraLetterspacePercentLow = p.style.extraLetterspacePercentLow ∧
      (run p calls).style.extraLetterspacePercentHigh = p.style.extraLetterspacePercentHigh :=
  Prod.mk.inj (Prod.mk.inj (Prod.mk.inj (Prod.mk.inj (bounds_run p calls)).2).2).1

theorem spaceImpulses_run (p : Profile ℚ) (calls : List (Call ℚ)) :
    spaceImpulses (run p calls).style = spaceImpulses p.style :=
  (Prod.mk.inj (Prod.mk.inj (Prod.mk.inj (bounds_run p calls)).2).2).2

theorem ratioOnLine_iff (h : Fresh (run p calls)) (ratio : ℚ) :
    RatioOnLine p calls ratio ↔ ratio = (run p calls).style.dahDitRatio := by
  have hmap : (run p calls).style.interpolate.dahDitRatio = _ := congrArg CodeStyle.dahDitRatio h.style_eq
  obtain ⟨hlow, hhigh⟩ := speedBounds_run p calls
  obtain ⟨hratioLow, hratioHigh⟩ := ratioBounds_run p calls
  rw [RatioOnLine, onLine_iff, ← hmap, CodeStyle.interpolate, characterWpm_run, hlow, hhigh, hratioLow, hratioHigh]

theorem letterspaceOnLine_iff (h : Fresh (run p calls)) (percent : ℚ) :
    LetterspaceOnLine p calls percent ↔ percent = (run p calls).style.extraLetterspacePercent := by
  have hmap : (run p calls).style.interpolate.extraLetterspacePercent = _ :=
    congrArg CodeStyle.extraLetterspacePercent h.style_eq
  obtain ⟨hlow, hhigh⟩ := speedBounds_run p calls
  obtain ⟨hpercentLow, hpercentHigh⟩ := letterspaceBounds_run p calls
  rw [LetterspaceOnLine, onLine_iff, ← hmap, CodeStyle.interpolate, characterWpm_run, hlow, hhigh, hpercentLow,
    hpercentHigh]

theorem ditMs_run (h : Fresh (run p calls)) :
    (run p calls).timings.ditMs = 60000 / rate p calls (run p calls).style.dahDitRatio := by
  rw [h.timings_eq, ditMs_eq, characterWpm_run, impulses, spaceImpulses_run, rate]

theorem dahMs_run (h : Fresh (run p calls)) :
    (run p calls).timings.dahMs = (run p calls).timings.ditMs * (run p calls).style.dahDitRatio := by
  rw [h.timings_eq, dahMs_eq]

theorem weightedDitMs_run (h : Fresh (run p calls)) :
    (run p calls).timings.weightedDitMs =
      (run p calls).timings.ditMs * weightingOf p calls / 50 + compensationOf p calls := by
  rw [h.timings_eq, weightedDitMs_eq, ← h.timings_eq, weighting_run, compensation_run, mul_div_assoc]

theorem elementSpaceMs_run (h : Fresh (run p calls)) :
    (run p calls).timings.weightedInterElementSpaceMs =
      (run p calls).timings.ditMs * (100 - weightingOf p calls) / 50 - compensationOf p calls +
        3 * (run p calls).timings.weightedDitMs * (run p calls).style.extraLetterspacePercent / 100 := by
  rw [h.timings_eq, weightedInterElementSpaceMs_eq, ← h.timings_eq, weighting_run, compensation_run]

theorem dah_iff (h : Fresh (run p calls)) (hdit : (run p calls).timings.ditMs ≠ 0) (ratio : ℚ) :
    (run p calls).timings.dahMs = ratio * (run p calls).timings.ditMs ↔ ratio = (run p calls).style.dahDitRatio := by
  rw [dahMs_run h, mul_comm, mul_left_inj' hdit]
  exact eq_comm

/-- The letterspace only counts where the dit that it is added in proportion to has a length. -/
theorem elementSpace_iff (h : Fresh (run p calls)) (percent : ℚ) :
    (run p calls).timings.weightedInterElementSpaceMs =
        (run p calls).timings.ditMs * (100 - weightingOf p calls) / 50 - compensationOf p calls +
          3 * (run p calls).timings.weightedDitMs * percent / 100 ↔
      percent = (run p calls).style.extraLetterspacePercent ∨ (run p calls).timings.weightedDitMs = 0 := by
  rw [elementSpaceMs_run h]
  constructor
  · intro hboth
    have hproduct : (run p calls).timings.weightedDitMs *
        (percent - (run p calls).style.extraLetterspacePercent) = 0 := by
      linear_combination -100 / 3 * hboth
    rcases mul_eq_zero.mp hproduct with hzero | hsame
    · exact .inr hzero
    · exact .inl (sub_eq_zero.mp hsame)
  · rintro (hsame | hzero)
    · rw [hsame]
    · rw [hzero, mul_zero, zero_mul, zero_mul]

theorem given_iff (given : Option ℚ) {held : ℚ} {P : ℚ → Prop} (hP : ∀ x, P x ↔ x = held) (Q : Prop) :
    (∀ x, given = some x → P x ∨ Q) ↔ given.getD held = held ∨ Q := by
  cases given with
  | none => simp
  | some v => simp [hP]

theorem weightedDit_eq_zero_iff (h : Fresh (run p calls)) (hrate : rate p calls (run p calls).style.dahDitRatio ≠ 0) :
    (run p calls).timings.weightedDitMs = 0 ↔
      ∃ ratio, RatioOnLine p calls ratio ∧
        1200 * weightingOf p calls + compensationOf p calls * rate p calls ratio = 0 := by
  have hdit : (run p calls).timings.weightedDitMs =
      (1200 * weightingOf p calls + compensationOf p calls * rate p calls (run p calls).style.dahDitRatio) /
        rate p calls (run p calls).style.dahDitRatio := by
    rw [weightedDitMs_run h, ditMs_run h]
    field_simp
    ring
  rw [hdit, div_eq_zero_iff, or_iff_left hrate]
  constructor
  · intro hzero
    exact ⟨_, (ratioOnLine_iff h _).mpr rfl, hzero⟩
  · rintro ⟨ratio, hratio, hzero⟩
    rwa [(ratioOnLine_iff h ratio).mp hratio] at hzero

/-- The timings are those of the values given last only where the ratio and the letterspace given are those
that the speed selects between the bounds anyway, or the dit has no length to add a letterspace to. -/
theorem takesEffect_iff (p : Profile ℚ) (calls : List (Call ℚ)) (hfresh : Fresh p ∨ calls ≠ [])
    (hrate : ∀ ratio, RatioOnLine p calls ratio → rate p calls ratio ≠ 0) :
    TakesEffect p calls ↔
      (∀ ratio, lastWrite Call.ratio calls = some ratio → RatioOnLine p calls ratio) ∧
      ∀ percent, lastWrite Call.letterspace calls = some percent → LetterspaceOnLine p calls percent ∨
        ∃ ratio, RatioOnLine p calls ratio ∧
          1200 * weightingOf p calls + compensationOf p calls * rate p calls ratio = 0 := by
  have h := fresh_run hfresh
  have hrate' := hrate _ ((ratioOnLine_iff h _).mpr rfl)
  have hdit : (run p calls).timings.ditMs ≠ 0 := by
    rw [ditMs_run h]
    exact div_ne_zero (by norm_num) hrate'
  have hratio := given_iff (lastWrite Call.ratio calls) (ratioOnLine_iff h) False
  simp only [or_false] at hratio
  rw [hratio, given_iff _ (letterspaceOnLine_iff h), ← weightedDit_eq_zero_iff h hrate', ← ratioOf,
    ← letterspaceOf]
  constructor
  · intro heffect
    exact ⟨(dah_iff h hdit _).mp heffect.dah, (elementSpace_iff h _).mp heffect.elementSpace⟩
  · rintro ⟨hsame, hletterspace⟩
    refine ⟨?_, (dah_iff h hdit _).mpr hsame, weightedDitMs_run h, (elementSpace_iff h _).mpr hletterspace⟩
    rw [ditMs_run h, hsame, rate]

end

/-- Neither a ratio nor a letterspace has any effect on the default profile. -/
theorem default_keeps_ratio :
    ¬ TakesEffect Profile.zero [.setDahDitRatio 4] ∧ ¬ TakesEffect Profile.zero [.setLetterspace 50] := by
  constructor
  · intro h
    exact absurd h.dah (by decide +kernel)
  · intro h
    exact absurd h.elementSpace (by decide +kernel)

def heavier : List (Call ℚ) := [.setSpeed 30, .setKeyingCompensation 5, .setDahDitRatio 3, .setWeighting 60]

theorem heavier_takesEffect : TakesEffect Profile.zero heavier := by
  have hrate (ratio : ℚ) (hline : RatioOnLine Profile.zero heavier ratio) :
      rate Profile.zero heavier ratio ≠ 0 := by
    have hthree : ratio = 3.0 := ((onLine_iff _ _ _ _ _ _).mp hline).trans (map_const _ _ _ _)
    rw [hthree]
    decide +kernel
  refine (takesEffect_iff Profile.zero heavier (.inr (List.cons_ne_nil _ _)) hrate).mpr ⟨?_, ?_⟩
  · intro ratio hlast
    cases hlast
    exact (onLine_iff _ _ _ _ _ _).mpr (by decide +kernel)
  · intro percent hlast
    cases hlast

end Cwsd.ProfileSetters

import Cwsd.KeyerMachine
import Cwsd.Single

namespace Cwsd.LetterSpacing

open Morse KeyerState KeyerMachine Rounding Single

/-- Entered at this reading of the clock, the state that spaces characters ends within a millisecond
of its time, whatever the two spaces are. -/
def Accurate (now : UInt32) : Prop :=
  ∀ (k : Keyer Single) (a : Answers) (C S : ℕ), S ≤ C → C < 2 ^ 16 → a.enterMs = now →
    k.profile.timings.spaceBetweenCharsMs = ((C : ℕ) : Single) →
    k.profile.timings.weightedInterElementSpaceMs = ((S : ℕ) : Single) →
      |((enterAutospace a k).autospaceTimeToExitState.toNat : ℤ) - (now.toNat + C - S)| ≤ 1

/-- The time at which the state ends, in the arithmetic of the source. -/
def deadline (now : UInt32) (C S : ℕ) : UInt32 :=
  SinglePrecision.toUInt32 ((now.toNat : Single) + ((C : ℕ) : Single) - ((S : ℕ) : Single))

def spacedKeyer (C S : ℕ) : Keyer Single :=
  { (Keyer.zero : Keyer Single) with
    profile :=
      { (Profile.zero : Profile Single) with
        timings :=
          { (Profile.zero : Profile Single).timings with
            spaceBetweenCharsMs := ((C : ℕ) : Single)
            weightedInterElementSpaceMs := ((S : ℕ) : Single) } } }

theorem accurate_iff (now : UInt32) :
    Accurate now ↔ ∀ C S : ℕ, S ≤ C → C < 2 ^ 16 →
      |((deadline now C S).toNat : ℤ) - (now.toNat + C - S)| ≤ 1 := by
  constructor
  · intro h C S hle hlt
    exact h (spacedKeyer C S) (.quiet now) C S hle hlt rfl rfl rfl
  · intro h k a C S hle hlt hnow hchars hspace
    have hdeadline : (enterAutospace a k).autospaceTimeToExitState = deadline now C S := by
      rw [← hnow, deadline, ← hchars, ← hspace]
      rfl
    rw [hdeadline]
    exact h C S hle hlt

theorem toNat_deadline {now : UInt32} {C S a b r : ℕ} (hC : C < 2 ^ 16) (hS : S ≤ C) (hSb : S ≤ b)
    (ha : roundTo 24 (now.toNat : ℚ) = a) (hb : roundTo 24 ((a + C : ℕ) : ℚ) = b)
    (hr : roundTo 24 ((b - S : ℕ) : ℚ) = r) : (deadline now C S).toNat = r % 2 ^ 32 := by
  have hvalue : ((now.toNat : Single) + ((C : ℕ) : Single) - ((S : ℕ) : Single)).value = r := by
    rw [value_sub, value_add, value_natCast, value_natCast, value_natCast, ha, roundTo_natCast (by omega),
      roundTo_natCast (by omega), ← Nat.cast_add, hb, ← Nat.cast_sub hSb, hr]
  rw [deadline, toUInt32_eq, hvalue, UInt32.toNat_ofNat']
  simp

theorem roundTo_small {n : ℕ} (h : n ≤ 2 ^ 24 + 2) :
    ∃ r : ℕ, roundTo 24 (n : ℚ) = r ∧ (r = n ∨ n = 2 ^ 24 + 1 ∧ r = 2 ^ 24) := by
  by_cases hsmall : n ≤ 2 ^ 24
  · exact ⟨n, roundTo_natCast hsmall, .inl rfl⟩
  by_cases hodd : n = 2 ^ 24 + 1
  · refine ⟨2 ^ 24, ?_, .inr ⟨hodd, rfl⟩⟩
    rw [roundTo_odd_low (by omega) (by omega) (by omega), hodd, Nat.add_sub_cancel]
  · exact ⟨n, roundTo_even (by omega) (by omega), .inl rfl⟩

theorem accurate_of_lt {now : UInt32} (h : now.toNat < 2 ^ 24 - 65532) : Accurate now := by
  rw [accurate_iff]
  intro C S hle hlt
  obtain ⟨b, hb, hbcases⟩ := roundTo_small (n := now.toNat + C) (by omega)
  obtain ⟨r, hr, hrcases⟩ := roundTo_small (n := b - S) (by omega)
  have hdeadline := toNat_deadline hlt hle (by omega) (roundTo_natCast (by omega)) hb hr
  rw [hdeadline, abs_le]
  omega

theorem deadline_multiple {now : UInt32} (h : 2 ^ 25 - 1 ≤ now.toNat) {C : ℕ} (hC : C < 2 ^ 16) :
    (deadline now C 0).toNat % 4 = 0 := by
  have hspace : roundTo 24 ((C : ℕ) : ℚ) = C := roundTo_natCast (by omega)
  have hzero : roundTo 24 ((0 : ℕ) : ℚ) = (0 : ℕ) := roundTo_natCast (by decide)
  have hlow : (2 : ℚ) ^ 25 ≤ roundTo 24 (now.toNat : ℚ) := by
    by_cases heq : now.toNat = 2 ^ 25 - 1
    · rw [roundTo_odd_high (by omega) (by omega) (by omega), heq]
      norm_num
    · have hle : (2 : ℚ) ^ (25 : ℤ) ≤ now.toNat := by
        have hnat : 2 ^ 25 ≤ now.toNat := by omega
        exact_mod_cast hnat
      have hround := le_roundTo (p := 24) (by decide) hle
      exact_mod_cast hround
  have hsum : (2 : ℚ) ^ (24 + 1) ≤ |roundTo 24 (now.toNat : ℚ) + C| := by
    have hnonneg : (0 : ℚ) ≤ C := Nat.cast_nonneg C
    exact (le_add_of_le_of_nonneg hlow hnonneg).trans (le_abs_self _)
  obtain ⟨n, hn⟩ := roundTo_multiple hsum
  have hvalue : ((now.toNat : Single) + ((C : ℕ) : Single) - ((0 : ℕ) : Single)).value = (4 * n : ℤ) := by
    have hprecise := hasPrecision_roundTo 24 (roundTo 24 (now.toNat : ℚ) + C)
    rw [value_sub, value_add, value_natCast, value_natCast, value_natCast, hspace, hzero, Nat.cast_zero,
      sub_zero,
      roundTo_of_hasPrecision (by decide) hprecise, hn]
    norm_num
  rw [deadline, toUInt32_eq, hvalue, UInt32.toNat_ofNat', Int.floor_intCast]
  omega

theorem Accurate.close {now : UInt32} (h : Accurate now) {C S : ℕ} (hle : S ≤ C) (hlt : C < 2 ^ 16) :
    -1 ≤ ((deadline now C S).toNat : ℤ) - (now.toNat + C - S) ∧
      ((deadline now C S).toNat : ℤ) - (now.toNat + C - S) ≤ 1 :=
  abs_le.mp ((accurate_iff now).mp h C S hle hlt)

theorem not_accurate_exact {now : UInt32} (h : 2 ^ 24 - 65532 ≤ now.toNat) (hlt : now.toNat < 2 ^ 25 - 1)
    (hexact : now.toNat < 2 ^ 24 ∨ 2 ∣ now.toNat) : ¬ Accurate now := by
  intro hall
  obtain ⟨C, hC, hlow, hmod⟩ : ∃ C, C < 2 ^ 16 ∧ 2 ^ 24 ≤ now.toNat + C ∧ (now.toNat + C) % 4 = 3 ∧
      0 < C ∧ now.toNat + C < 2 ^ 25 := by
    by_cases hsmall : now.toNat < 2 ^ 24
    · exact ⟨2 ^ 24 + 3 - now.toNat, by omega⟩
    · exact ⟨3 - now.toNat % 4, by omega⟩
  have ha : roundTo 24 (now.toNat : ℚ) = now.toNat := by
    rcases hexact with hsmall | heven
    · exact roundTo_natCast hsmall.le
    · exact roundTo_even (by omega) heven
  have hb := roundTo_odd_high hlow hmod.2.2 hmod.1
  have hr : roundTo 24 ((now.toNat + C + 1 - 1 : ℕ) : ℚ) = (now.toNat + C + 1 : ℕ) := by
    rw [Nat.add_sub_cancel]
    exact hb
  have herror := hall.close (by omega : 1 ≤ C) hC
  rw [toNat_deadline hC (by omega) (by omega) ha hb hr] at herror
  omega

theorem not_accurate_odd {now : UInt32} (h : 2 ^ 24 ≤ now.toNat) (hlt : now.toNat < 2 ^ 25 - 1)
    (hodd : ¬ 2 ∣ now.toNat) : ¬ Accurate now := by
  intro hall
  rcases (by omega : now.toNat % 4 = 1 ∨ now.toNat % 4 = 3) with hmod | hmod
  · have ha := roundTo_odd_low (by omega) (by omega) hmod
    have hb : roundTo 24 ((now.toNat - 1 + 1 : ℕ) : ℚ) = (now.toNat - 1 : ℕ) := by
      rw [Nat.sub_add_cancel (by omega)]
      exact ha
    have hr : roundTo 24 ((now.toNat - 1 - 0 : ℕ) : ℚ) = (now.toNat - 1 : ℕ) :=
      roundTo_even (by omega) (by omega)
    have herror := hall.close (by omega : 0 ≤ 1) (by omega)
    rw [toNat_deadline (by omega) (by omega) (by omega) ha hb hr] at herror
    omega
  · have ha := roundTo_odd_high (by omega) (by omega) hmod
    have hb := roundTo_odd_high (n := now.toNat + 1 + 3) (by omega) (by omega) (by omega)
    have hr : roundTo 24 ((now.toNat + 1 + 3 + 1 - 0 : ℕ) : ℚ) = (now.toNat + 1 + 3 + 1 : ℕ) :=
      roundTo_even (by omega) (by omega)
    have herror := hall.close (by omega : 0 ≤ 3) (by omega)
    rw [toNat_deadline (by omega) (by omega) (by omega) ha hb hr] at herror
    omega

theorem not_accurate {now : UInt32} (h : 2 ^ 24 - 65532 ≤ now.toNat) (hmax : now.toNat < 2 ^ 32 - 2 ^ 16) :
    ¬ Accurate now := by
  by_cases hbig : 2 ^ 25 - 1 ≤ now.toNat
  · intro hall
    have hmultiple := deadline_multiple hbig (by omega : (6 - now.toNat % 4) % 4 < 2 ^ 16)
    have herror := hall.close (Nat.zero_le ((6 - now.toNat % 4) % 4)) (by omega)
    omega
  by_cases hexact : now.toNat < 2 ^ 24 ∨ 2 ∣ now.toNat
  · exact not_accurate_exact h (by omega) hexact
  · exact not_accurate_odd (by omega) (by omega) fun heven => hexact (.inr heven)

/-- The spacing of characters keeps to the millisecond for the first four and a half hours, and at no
time after them. -/
theorem accurate_iff_lt (now : UInt32) (hmax : now.toNat < 2 ^ 32 - 2 ^ 16) :
    Accurate now ↔ now.toNat < 2 ^ 24 - 65532 :=
  ⟨fun h => Nat.lt_of_not_le fun hle => not_accurate hle hmax h, accurate_of_lt⟩

theorem firstHour_accurate : Accurate 3600000 :=
  (accurate_iff_lt 3600000 (by decide)).mpr (by decide)

theorem tenDays_inaccurate :
    (enterAutospace (.quiet 864000000) (spacedKeyer 150 50)).autospaceTimeToExitState = 864000064 ∧
      ¬ Accurate 864000000 := by
  refine ⟨?_, not_accurate (by decide) (by decide)⟩
  have hround {n q : ℕ} (hlow : 2 ^ 29 ≤ n) (hhigh : n < 2 ^ 30)
      (hq : nearestEven ((n : ℚ) / 64) = q) : roundTo 24 (n : ℚ) = (64 * q : ℕ) := by
    have hgrain : grainLog 24 (n : ℚ) = 6 := by
      apply grainLog_eq
      · have hcast : ((2 ^ 29 : ℕ) : ℚ) ≤ n := Nat.cast_le.mpr hlow
        norm_num at hcast ⊢
        exact hcast
      · have hcast : (n : ℚ) < ((2 ^ 30 : ℕ) : ℚ) := Nat.cast_lt.mpr hhigh
        norm_num at hcast ⊢
        exact hcast
    rw [roundTo, hgrain, show (2 : ℚ) ^ (6 : ℤ) = 64 by norm_num, hq]
    push_cast
    ring
  have ha : roundTo 24 ((864000000 : ℕ) : ℚ) = (64 * 13500000 : ℕ) :=
    hround (by decide) (by decide) (by norm_num [nearestEven])
  have hb : roundTo 24 ((864000150 : ℕ) : ℚ) = (64 * 13500002 : ℕ) :=
    hround (by decide) (by decide) (by norm_num [nearestEven])
  have hr : roundTo 24 ((864000078 : ℕ) : ℚ) = (64 * 13500001 : ℕ) :=
    hround (by decide) (by decide) (by norm_num [nearestEven])
  have hdeadline : (deadline 864000000 150 50).toNat = 64 * 13500001 % 2 ^ 32 :=
    toNat_deadline (by decide) (by decide) (by decide) ha hb hr
  exact UInt32.toNat_inj.mp hdeadline

end Cwsd.LetterSpacing

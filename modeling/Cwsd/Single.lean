import Cwsd.Morse
import Cwsd.Rounding

namespace Cwsd

open Rounding

/-- A number with a significand of 24 bits. The range of the exponent is left open: the clock
readings and times of the source are far from its ends. -/
structure Single where
  value : ℚ
  precise : HasPrecision 24 value

namespace Single

def round (x : ℚ) : Single := ⟨roundTo 24 x, hasPrecision_roundTo 24 x⟩

instance : SinglePrecision Single where
  add a b := round (a.value + b.value)
  sub a b := round (a.value - b.value)
  mul a b := round (a.value * b.value)
  div a b := round (a.value / b.value)
  natCast n := round n
  ofScientific m s e := round (OfScientific.ofScientific m s e)
  abs a := round |a.value|
  le a b := decide (a.value ≤ b.value)
  toUInt32 a := UInt32.ofNat ⌊a.value⌋.toNat
  toUInt8 a := UInt8.ofNat ⌊a.value⌋.toNat

theorem value_add (a b : Single) : (a + b).value = roundTo 24 (a.value + b.value) := rfl

theorem value_sub (a b : Single) : (a - b).value = roundTo 24 (a.value - b.value) := rfl

theorem value_natCast (n : ℕ) : ((n : ℕ) : Single).value = roundTo 24 (n : ℚ) := rfl

theorem toUInt32_eq (a : Single) : SinglePrecision.toUInt32 a = UInt32.ofNat ⌊a.value⌋.toNat := rfl

theorem roundTo_natCast {n : ℕ} (h : n ≤ 2 ^ 24) : roundTo 24 (n : ℚ) = n := by
  refine roundTo_of_hasPrecision (by decide) ⟨n, 0, ?_, by simp⟩
  rw [abs_of_nonneg (Int.natCast_nonneg n)]
  exact_mod_cast h

/-- Twice as far, the even numbers are left as they are. -/
theorem roundTo_even {n : ℕ} (h : n ≤ 2 ^ 25) (heven : 2 ∣ n) : roundTo 24 (n : ℚ) = n := by
  obtain ⟨half, rfl⟩ := heven
  refine roundTo_of_hasPrecision (by decide) ⟨half, 1, ?_, by push_cast; ring⟩
  rw [abs_of_nonneg (Int.natCast_nonneg half)]
  have hhalf : half ≤ 2 ^ 24 := by omega
  exact_mod_cast hhalf

theorem roundTo_odd_low {n : ℕ} (hlow : 2 ^ 24 ≤ n) (hhigh : n < 2 ^ 25) (hmod : n % 4 = 1) :
    roundTo 24 (n : ℚ) = (n - 1 : ℕ) := by
  obtain ⟨m, rfl⟩ : ∃ m : ℕ, n = 2 * m + 1 := ⟨n / 2, by omega⟩
  have heven : Even (m : ℤ) := by
    rw [Int.even_iff]
    omega
  have hround := roundTo_odd (K := ℚ) (p := 24) (m := m) (by exact_mod_cast hlow) (by exact_mod_cast hhigh)
  rw [if_pos heven] at hround
  push_cast at hround ⊢
  rw [hround]

theorem roundTo_odd_high {n : ℕ} (hlow : 2 ^ 24 ≤ n) (hhigh : n < 2 ^ 25) (hmod : n % 4 = 3) :
    roundTo 24 (n : ℚ) = (n + 1 : ℕ) := by
  obtain ⟨m, rfl⟩ : ∃ m : ℕ, n = 2 * m + 1 := ⟨n / 2, by omega⟩
  have hodd : ¬ Even (m : ℤ) := by
    rw [Int.even_iff]
    omega
  have hround := roundTo_odd (K := ℚ) (p := 24) (m := m) (by exact_mod_cast hlow) (by exact_mod_cast hhigh)
  rw [if_neg hodd] at hround
  push_cast at hround ⊢
  rw [hround]
  ring

instance : ExactBytes Single where
  toUInt8_cast c := by
    have hlt := c.toNat_lt
    have hvalue : ((c.toNat : ℕ) : Single).value = (c.toNat : ℚ) := roundTo_natCast (by omega)
    have hfloor : ⌊((c.toNat : ℕ) : Single).value⌋.toNat = c.toNat := by
      rw [hvalue]
      simp
    exact (congrArg UInt8.ofNat hfloor).trans UInt8.ofNat_toNat

end Single

end Cwsd

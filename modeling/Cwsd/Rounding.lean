import Mathlib.Algebra.Order.Field.Power
import Mathlib.Algebra.Order.Floor.Ring
import Mathlib.Data.Int.Log
import Mathlib.Tactic.FieldSimp
import Mathlib.Tactic.Linarith
import Mathlib.Tactic.Ring

namespace Cwsd.Rounding

variable {K : Type} [Field K]

theorem two_zpow_toNat {e : ℤ} (h : 0 ≤ e) : (2 : K) ^ e = ((2 ^ e.toNat : ℤ) : K) := by
  obtain ⟨n, rfl⟩ := Int.eq_ofNat_of_zero_le h
  push_cast
  rw [zpow_natCast, Int.toNat_natCast]

variable [LinearOrder K] [FloorRing K]

/-- The nearest integer; of two that are equally near, the even one. -/
def nearestEven (x : K) : ℤ :=
  if Int.fract x < 1 / 2 then ⌊x⌋
  else if 1 / 2 < Int.fract x then ⌊x⌋ + 1
  else if Even ⌊x⌋ then ⌊x⌋
  else ⌊x⌋ + 1

/-- The exponent of the step between numbers of p significant bits that have the magnitude of x. -/
def grainLog (p : ℕ) (x : K) : ℤ := Int.log 2 |x| + 1 - p

def roundTo (p : ℕ) (x : K) : K := nearestEven (x / 2 ^ grainLog p x) * 2 ^ grainLog p x

/-- The number has a significand of p bits; one that is rounded up to the next power of two has too. -/
def HasPrecision (p : ℕ) (x : K) : Prop := ∃ m e : ℤ, |m| ≤ 2 ^ p ∧ x = m * 2 ^ e

section

variable {x : K} {n : ℤ} {p : ℕ}

theorem floor_le_nearestEven (x : K) : ⌊x⌋ ≤ nearestEven x ∧ nearestEven x ≤ ⌊x⌋ + 1 := by
  simp only [nearestEven]
  split
  · omega
  split
  · omega
  split
  · omega
  · omega

variable [IsStrictOrderedRing K]

theorem nearestEven_intCast (n : ℤ) : nearestEven (n : K) = n := by
  have hfract : Int.fract (n : K) = 0 := by rw [Int.fract, Int.floor_intCast, sub_self]
  rw [nearestEven, hfract, Int.floor_intCast, if_pos (by norm_num)]

theorem nearestEven_half (n : ℤ) : nearestEven (n + 1 / 2 : K) = if Even n then n else n + 1 := by
  have hfloor : ⌊(n + 1 / 2 : K)⌋ = n := by
    rw [Int.floor_eq_iff]
    constructor <;> linarith
  have hfract : Int.fract (n + 1 / 2 : K) = 1 / 2 := by
    rw [Int.fract, hfloor]
    ring
  rw [nearestEven, hfract, hfloor, if_neg (lt_irrefl _), if_neg (lt_irrefl _)]

omit [IsStrictOrderedRing K] in
theorem le_nearestEven (h : (n : K) ≤ x) : n ≤ nearestEven x :=
  (Int.le_floor.mpr h).trans (floor_le_nearestEven x).1

theorem nearestEven_le (h : x ≤ n) : nearestEven x ≤ n := by
  rcases h.lt_or_eq with hlt | rfl
  · have hfloor : ⌊x⌋ < n := Int.floor_lt.mpr hlt
    have hle := (floor_le_nearestEven x).2
    omega
  · rw [nearestEven_intCast]

theorem two_zpow_pos (e : ℤ) : (0 : K) < 2 ^ e := zpow_pos (by norm_num) e

theorem log_abs_lt {e : ℤ} (hx : x ≠ 0) : Int.log 2 |x| < e ↔ |x| < 2 ^ e := by
  have h := Int.lt_zpow_iff_log_lt (R := K) (x := e) Nat.one_lt_two (abs_pos.mpr hx)
  rw [Nat.cast_ofNat] at h
  exact h.symm

theorem grainLog_eq {e : ℤ} (hlow : 2 ^ (p + e - 1) ≤ x) (hhigh : x < 2 ^ (p + e)) : grainLog p x = e := by
  have hpos : 0 < x := (two_zpow_pos _).trans_le hlow
  have hup : Int.log 2 |x| < p + e := by rwa [log_abs_lt hpos.ne', abs_of_pos hpos]
  have hdown : ¬ Int.log 2 |x| < p + e - 1 := by rwa [log_abs_lt hpos.ne', abs_of_pos hpos, not_lt]
  rw [grainLog]
  omega

theorem roundTo_of_grainLog_le {m e : ℤ} (hx : x = m * 2 ^ e) (h : grainLog p x ≤ e) : roundTo p x = x := by
  have hpos := two_zpow_pos (K := K) (grainLog p x)
  have hquot : x / 2 ^ grainLog p x = ((m * 2 ^ (e - grainLog p x).toNat : ℤ) : K) := by
    rw [div_eq_iff hpos.ne', Int.cast_mul, ← two_zpow_toNat (sub_nonneg.mpr h), mul_assoc,
      ← zpow_add₀ (by norm_num), sub_add_cancel]
    exact hx
  rw [roundTo, hquot, nearestEven_intCast, ← hquot, div_mul_cancel₀ _ hpos.ne']

theorem roundTo_of_lt {m e : ℤ} (hm : |m| < 2 ^ p) (hx : x = m * 2 ^ e) : roundTo p x = x := by
  rcases eq_or_ne x 0 with hzero | hne
  · have hround := nearestEven_intCast (K := K) 0
    rw [Int.cast_zero] at hround
    rw [roundTo, hzero, zero_div, hround, Int.cast_zero, zero_mul]
  refine roundTo_of_grainLog_le hx ?_
  have hlog : Int.log 2 |x| < p + e := by
    rw [log_abs_lt hne, hx, abs_mul, abs_of_pos (two_zpow_pos (K := K) e), zpow_add₀ (by norm_num),
      zpow_natCast]
    refine mul_lt_mul_of_pos_right ?_ (two_zpow_pos e)
    exact_mod_cast hm
  rw [grainLog]
  omega

theorem roundTo_of_hasPrecision (hp : 0 < p) (h : HasPrecision p x) : roundTo p x = x := by
  obtain ⟨m, e, hm, hx⟩ := h
  rcases hm.lt_or_eq with hlt | heq
  · exact roundTo_of_lt hlt hx
  -- A significand of p + 1 bits is the power of two, and is halved.
  obtain ⟨q, rfl⟩ : ∃ q, p = q + 1 := ⟨p - 1, by omega⟩
  have heven : (2 : ℤ) ∣ m := by
    rw [← dvd_abs, heq]
    exact dvd_pow_self 2 (Nat.succ_ne_zero q)
  obtain ⟨half, rfl⟩ := heven
  refine roundTo_of_lt (m := half) (e := e + 1) ?_ ?_
  · have hpos := pow_pos (by norm_num : (0 : ℤ) < 2) q
    rw [abs_mul, abs_two, pow_succ] at heq
    rw [pow_succ]
    linarith
  · rw [hx, zpow_add_one₀ (by norm_num)]
    push_cast
    ring

theorem hasPrecision_roundTo (p : ℕ) (x : K) : HasPrecision p (roundTo p x) := by
  refine ⟨nearestEven (x / 2 ^ grainLog p x), grainLog p x, ?_, rfl⟩
  have hscaled : |x / 2 ^ grainLog p x| ≤ ((2 ^ p : ℤ) : K) := by
    have hlt := Int.lt_zpow_succ_log_self Nat.one_lt_two |x|
    have hsplit : (2 : K) ^ (Int.log 2 |x| + 1) = 2 ^ (p : ℤ) * 2 ^ grainLog p x := by
      rw [← zpow_add₀ (by norm_num), grainLog]
      congr 1
      ring
    rw [Nat.cast_ofNat, hsplit] at hlt
    rw [abs_div, abs_of_pos (two_zpow_pos (K := K) _), div_le_iff₀ (two_zpow_pos _)]
    push_cast
    rw [← zpow_natCast]
    exact hlt.le
  obtain ⟨hlow, hhigh⟩ := abs_le.mp hscaled
  rw [abs_le]
  exact ⟨le_nearestEven (by push_cast at hlow ⊢; exact hlow), nearestEven_le hhigh⟩

theorem roundTo_multiple {j : ℕ} (hx : (2 : K) ^ (p + j) ≤ |x|) :
    ∃ n : ℤ, roundTo p x = ((2 ^ (j + 1) * n : ℤ) : K) := by
  have hgrain : (j + 1 : ℤ) ≤ grainLog p x := by
    have hne : x ≠ 0 := by
      rintro rfl
      rw [abs_zero] at hx
      exact absurd hx (not_le.mpr (pow_pos (by norm_num) _))
    have hlog : ((p + j : ℕ) : ℤ) ≤ Int.log 2 |x| := by
      rw [← not_lt, log_abs_lt hne, not_lt, zpow_natCast]
      exact hx
    rw [grainLog]
    omega
  refine ⟨nearestEven (x / 2 ^ grainLog p x) * 2 ^ (grainLog p x - (j + 1)).toNat, ?_⟩
  rw [roundTo, mul_comm ((2 : ℤ) ^ (j + 1)), mul_assoc, Int.cast_mul]
  congr 1
  have hsplit : grainLog p x = (grainLog p x - (j + 1)) + (j + 1 : ℕ) := by omega
  rw [Int.cast_mul, ← two_zpow_toNat (sub_nonneg.mpr hgrain)]
  push_cast
  rw [← zpow_natCast, ← zpow_add₀ (by norm_num)]
  congr 1

theorem le_roundTo {j : ℤ} (hp : 0 < p) (hx : (2 : K) ^ j ≤ x) : (2 : K) ^ j ≤ roundTo p x := by
  have hpos : 0 < x := (two_zpow_pos j).trans_le hx
  have hlog : j ≤ Int.log 2 |x| := by
    rw [← not_lt, log_abs_lt hpos.ne', not_lt, abs_of_pos hpos]
    exact hx
  have hlow : (2 : K) ^ Int.log 2 |x| ≤ x := by
    have h := Int.zpow_log_le_self Nat.one_lt_two (abs_pos.mpr hpos.ne')
    rw [Nat.cast_ofNat] at h
    exact h.trans_eq (abs_of_pos hpos)
  have hsplit : Int.log 2 |x| = (p - 1 : ℕ) + grainLog p x := by
    rw [grainLog]
    omega
  have hquot : ((2 ^ (p - 1) : ℤ) : K) ≤ x / 2 ^ grainLog p x := by
    rw [le_div_iff₀ (two_zpow_pos _)]
    push_cast
    rw [← zpow_natCast, ← zpow_add₀ (by norm_num), ← hsplit]
    exact hlow
  have hnearest : ((2 ^ (p - 1) : ℤ) : K) ≤ (nearestEven (x / 2 ^ grainLog p x) : K) :=
    Int.cast_le.mpr (le_nearestEven hquot)
  calc (2 : K) ^ j ≤ 2 ^ Int.log 2 |x| := zpow_le_zpow_right₀ (by norm_num) hlog
    _ = ((2 ^ (p - 1) : ℤ) : K) * 2 ^ grainLog p x := by
      conv_lhs => rw [hsplit]
      rw [zpow_add₀ (by norm_num)]
      push_cast
      rw [zpow_natCast]
    _ ≤ roundTo p x := mul_le_mul_of_nonneg_right hnearest (two_zpow_pos _).le

/-- An odd number that has one bit too many is rounded to the multiple of four next to it. -/
theorem roundTo_odd {m : ℤ} (hlow : 2 ^ p ≤ 2 * m + 1) (hhigh : 2 * m + 1 < 2 ^ (p + 1)) :
    roundTo p ((2 * m + 1 : ℤ) : K) = ((2 * if Even m then m else m + 1 : ℤ) : K) := by
  have hgrain : grainLog p ((2 * m + 1 : ℤ) : K) = 1 := by
    apply grainLog_eq
    · rw [add_sub_cancel_right, zpow_natCast]
      exact_mod_cast hlow
    · rw [zpow_add_one₀ (by norm_num), zpow_natCast, ← pow_succ]
      exact_mod_cast hhigh
  have hquot : ((2 * m + 1 : ℤ) : K) / 2 ^ (1 : ℤ) = m + 1 / 2 := by
    push_cast
    rw [zpow_one, add_div, mul_div_cancel_left₀ _ (by norm_num)]
  rw [roundTo, hgrain, hquot, nearestEven_half, zpow_one, mul_comm]
  push_cast
  rfl

end

end Cwsd.Rounding

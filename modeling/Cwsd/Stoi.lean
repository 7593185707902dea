import Mathlib.Data.List.Basic
import Mathlib.Data.List.TakeWhile

namespace Cwsd.Stoi

/-- The exceptions of the standard library that the conversions throw; both are
derived from std::exception. -/
inductive StdException
  | invalidArgument
  | outOfRange
  deriving DecidableEq, Repr

def isSpace (c : UInt8) : Bool := [0x09, 0x0A, 0x0B, 0x0C, 0x0D, 0x20].contains c

def isDigit (c : UInt8) : Bool := decide (0x30 ≤ c) && decide (c ≤ 0x39)

def digitsValue (digits : List UInt8) : Nat := digits.foldl (fun n d => 10 * n + (d.toNat - 0x30)) 0

def intMin : Int := -2147483648
def intMax : Int := 2147483647

def splitSign : List UInt8 → Bool × List UInt8
  | [] => (false, [])
  | c :: text =>
      if c = '-'.toUInt8 then (true, text)
      else if c = '+'.toUInt8 then (false, text)
      else (false, c :: text)

def signed (negative : Bool) (value : Nat) : Int := if negative then -(value : Int) else value

/-- The standard conversion in base ten. It stops at the first byte that is not a
digit, so a terminating NUL needs no case of its own. -/
def stoi (text : List UInt8) : Except StdException Int :=
  let (negative, text) := splitSign (text.dropWhile isSpace)
  let digits := text.takeWhile isDigit
  if digits = [] then .error .invalidArgument
  else
    let value := signed negative (digitsValue digits)
    if intMin ≤ value ∧ value ≤ intMax then .ok value else .error .outOfRange

def LeadingInt (text : List UInt8) (value : Int) : Prop :=
  ∃ space negative digits rest, ∃ sign : List UInt8, text = space ++ (sign ++ (digits ++ rest)) ∧
    (∀ c ∈ space, isSpace c = true) ∧
    (sign = (if negative then ['-'.toUInt8] else []) ∨ negative = false ∧ sign = ['+'.toUInt8]) ∧
    digits ≠ [] ∧ (∀ d ∈ digits, isDigit d = true) ∧ (∀ c ∈ rest.head?, isDigit c = false) ∧
    value = signed negative (digitsValue digits)

theorem not_isSpace_of_isDigit {c : UInt8} (h : isDigit c = true) : isSpace c = false := by
  simp only [isDigit, Bool.and_eq_true, decide_eq_true_eq, UInt8.le_iff_toNat_le, UInt8.reduceToNat] at h
  simp only [isSpace, List.contains_eq_mem, decide_eq_false_iff_not, List.mem_cons, List.not_mem_nil,
    or_false, not_or, ← UInt8.toNat_inj, UInt8.reduceToNat]
  omega

theorem splitSign_digit {c : UInt8} (h : isDigit c = true) (text : List UInt8) :
    splitSign (c :: text) = (false, c :: text) := by
  have hm : c ≠ '-'.toUInt8 := by
    rintro rfl
    exact absurd h (by decide)
  have hp : c ≠ '+'.toUInt8 := by
    rintro rfl
    exact absurd h (by decide)
  simp [splitSign, hm, hp]

theorem splitSign_eq (text : List UInt8) :
    ∃ sign : List UInt8, text = sign ++ (splitSign text).2 ∧
      (sign = (if (splitSign text).1 then ['-'.toUInt8] else []) ∨
        (splitSign text).1 = false ∧ sign = ['+'.toUInt8]) := by
  cases text with
  | nil => exact ⟨[], rfl, .inl rfl⟩
  | cons c text =>
      by_cases hm : c = '-'.toUInt8
      · exact ⟨['-'.toUInt8], by simp [splitSign, hm], .inl (by simp [splitSign, hm])⟩
      · by_cases hp : c = '+'.toUInt8
        · have hne : '+'.toUInt8 ≠ '-'.toUInt8 := by decide
          exact ⟨['+'.toUInt8], by simp [splitSign, hp, hne], .inr (by simp [splitSign, hp, hne])⟩
        · exact ⟨[], by simp [splitSign, hm, hp], .inl (by simp [splitSign, hm, hp])⟩

theorem dropWhile_space {space text : List UInt8} (hspace : ∀ c ∈ space, isSpace c = true)
    (hhead : ∀ c ∈ text.head?, isSpace c = false) : (space ++ text).dropWhile isSpace = text := by
  rw [List.dropWhile_append_of_pos hspace]
  cases text with
  | nil => rfl
  | cons c text => simp [hhead c (by simp)]

theorem takeWhile_digits {digits rest : List UInt8} (hdigits : ∀ d ∈ digits, isDigit d = true)
    (hrest : ∀ c ∈ rest.head?, isDigit c = false) : (digits ++ rest).takeWhile isDigit = digits := by
  rw [List.takeWhile_append_of_pos hdigits]
  cases rest with
  | nil => simp
  | cons c rest => simp [hrest c (by simp)]

theorem leadingInt_of_stoi {text : List UInt8} {value : Int} (h : stoi text = .ok value) :
    LeadingInt text value ∧ intMin ≤ value ∧ value ≤ intMax := by
  simp only [stoi] at h
  split at h
  · cases h
  · rename_i hne
    split at h
    · rename_i hrange
      cases h
      obtain ⟨sign, hsign, hkind⟩ := splitSign_eq (text.dropWhile isSpace)
      refine ⟨⟨text.takeWhile isSpace, _, _, (splitSign (text.dropWhile isSpace)).2.dropWhile isDigit, sign,
        ?_, ?_, hkind, hne, ?_, ?_, rfl⟩, hrange⟩
      · rw [List.takeWhile_append_dropWhile, ← hsign, List.takeWhile_append_dropWhile]
      · intro c hc
        exact List.mem_takeWhile_imp hc
      · intro d hd
        exact List.mem_takeWhile_imp hd
      · intro c hc
        have hh := List.head?_dropWhile_not isDigit (splitSign (text.dropWhile isSpace)).2
        rw [Option.mem_def.mp hc] at hh
        simpa using hh
    · cases h

theorem stoi_of_leadingInt {text : List UInt8} {value : Int} (h : LeadingInt text value)
    (hmin : intMin ≤ value) (hmax : value ≤ intMax) : stoi text = .ok value := by
  obtain ⟨space, negative, digits, rest, sign, rfl, hspace, hsign, hne, hdigits, hrest, rfl⟩ := h
  obtain ⟨d, ds, rfl⟩ := List.exists_cons_of_ne_nil hne
  have hd := hdigits d (by simp)
  have hdrop : (space ++ (sign ++ (d :: ds ++ rest))).dropWhile isSpace = sign ++ (d :: ds ++ rest) := by
    apply dropWhile_space hspace
    intro c hc
    rcases hsign with rfl | ⟨-, rfl⟩
    · cases negative with
      | false =>
          simp only [Bool.false_eq_true, if_false, List.nil_append, List.cons_append, List.head?_cons,
            Option.mem_some_iff] at hc
          exact hc ▸ not_isSpace_of_isDigit hd
      | true =>
          simp only [if_true, List.cons_append, List.head?_cons, Option.mem_some_iff] at hc
          subst hc
          decide
    · simp only [List.cons_append, List.head?_cons, Option.mem_some_iff] at hc
      subst hc
      decide
  have hsplit : splitSign (sign ++ (d :: ds ++ rest)) = (negative, d :: ds ++ rest) := by
    rcases hsign with rfl | ⟨rfl, rfl⟩
    · cases negative with
      | false => exact splitSign_digit hd _
      | true => rfl
    · rfl
  simp only [stoi, hdrop, hsplit, takeWhile_digits hdigits hrest]
  rw [if_neg hne, if_pos ⟨hmin, hmax⟩]

/-- The conversion throws exactly when there is no leading integer or it does not fit an int. -/
theorem stoi_ok_iff (text : List UInt8) :
    (∃ value, stoi text = .ok value) ↔ ∃ value, LeadingInt text value ∧ intMin ≤ value ∧ value ≤ intMax := by
  constructor
  · rintro ⟨value, h⟩
    exact ⟨value, leadingInt_of_stoi h⟩
  · rintro ⟨value, h, hmin, hmax⟩
    exact ⟨value, stoi_of_leadingInt h hmin hmax⟩

end Cwsd.Stoi

import Cwsd.NonzeroSpeeds

namespace Cwsd.TextScan

open KeyerState CwDaemon WinkeyerFeed Framing NonzeroSpeeds
open WinkeyerFraming (frameArity frameArity_text)

def IsSign (c : UInt8) : Prop := c = '+'.toUInt8 ∨ c = '-'.toUInt8

instance (c : UInt8) : Decidable (IsSign c) := inferInstanceAs (Decidable (_ ∨ _))

def IsWritten (c : UInt8) : Prop := 32 ≤ c ∧ ¬ IsSign c ∧ c ≠ '~'.toUInt8

instance (c : UInt8) : Decidable (IsWritten c) := inferInstanceAs (Decidable (_ ∧ _))

/-- What the loop does for one byte: each sign moves the speed, and the last of its run writes it. -/
def readByte (c : UInt8) (next : Option UInt8) (s : TextState) : TextState :=
  if IsSign c then
    if next = some c then { s with currentSpeed := inlineSpeed [c] s.currentSpeed }
    else s.changeSpeed (inlineSpeed [c] s.currentSpeed)
  else if c = '~'.toUInt8 then { s with isGap := true }
  else if 32 ≤ c then s.pushChar c
  else s

/-- The loop over the text, one byte at a time. -/
def scan : List UInt8 → TextState → TextState
  | [], s => s
  | c :: text, s => scan text (readByte c text.head? s)

theorem plainChar_of_pos {char : CharType} {c : UInt8} (hc : 0 < plainChar char c) :
    plainChar char c = c.toNat := by
  have hlt := c.toNat_lt
  cases char with
  | unsigned => rfl
  | signed =>
      simp only [plainChar] at hc ⊢
      split at hc
      · rename_i hsmall
        rw [if_pos hsmall]
      · omega

theorem written_iff {char : CharType} {c : UInt8} (hc : 0 < plainChar char c) :
    32 ≤ plainChar char c ↔ 32 ≤ c := by
  rw [plainChar_of_pos hc, UInt8.le_iff_toNat_le, show (32 : UInt8).toNat = 32 from rfl]
  omega

theorem scan_run {sign : UInt8} (hsign : IsSign sign) (times : Nat) {after : List UInt8}
    (hafter : after.head? ≠ some sign) (s : TextState) :
    scan (List.replicate (times + 1) sign ++ after) s =
      scan after (s.changeSpeed (inlineSpeed (List.replicate (times + 1) sign) s.currentSpeed)) := by
  induction times generalizing s with
  | zero => simp [scan, readByte, hsign, hafter]
  | succ times ih =>
      have hread : scan (List.replicate (times + 1 + 1) sign ++ after) s =
          scan (List.replicate (times + 1) sign ++ after)
            { s with currentSpeed := inlineSpeed [sign] s.currentSpeed } := by
        rw [List.replicate_succ, List.cons_append, scan, readByte, if_pos hsign,
          if_pos (by simp [List.replicate_succ])]
      have hspeed : inlineSpeed (List.replicate (times + 1 + 1) sign) s.currentSpeed =
          inlineSpeed (List.replicate (times + 1) sign) (inlineSpeed [sign] s.currentSpeed) := by
        rw [List.replicate_succ, ← List.singleton_append, inlineSpeed_append]
      rw [hread, ih, hspeed]
      rfl

theorem textLoop_eq (char : CharType) (ptr : List UInt8) (s : TextState) :
    textLoop char ptr s = scan (readText char ptr) s := by
  induction ptr, s using textLoop.induct char with
  | case1 s =>
      rw [textLoop]
      rfl
  | case2 c ptr s hstop =>
      rw [textLoop, if_pos hstop, readText, List.takeWhile_cons_of_neg (by simpa using hstop)]
      rfl
  | case3 ptr s times hstop ih =>
      obtain ⟨heq, hhead⟩ := readText_run hstop ptr
      rw [textLoop, if_neg hstop, if_pos rfl, heq, scan_run (.inr rfl) _ hhead, inlineSpeed_minus]
      exact ih
  | case4 ptr s times hstop hminus ih =>
      obtain ⟨heq, hhead⟩ := readText_run hstop ptr
      rw [textLoop, if_neg hstop, if_neg hminus, if_pos rfl, heq, scan_run (.inl rfl) _ hhead,
        inlineSpeed_plus]
      exact ih
  | case5 ptr s hstop hminus hplus ih =>
      rw [textLoop, if_neg hstop, if_neg hminus, if_neg hplus, if_pos rfl, readText_cons hstop, ih]
      rfl
  | case6 c ptr s hstop hminus hplus htilde ih =>
      have hwritten := written_iff (Int.not_le.mp hstop)
      rw [textLoop, if_neg hstop, if_neg hminus, if_neg hplus, if_neg htilde, readText_cons hstop, scan,
        readByte, if_neg (show ¬ IsSign c from not_or.mpr ⟨hplus, hminus⟩), if_neg htilde,
        ← if_congr hwritten rfl rfl]
      exact ih

def gapAfter (before : List UInt8) : Bool :=
  (before.reverse.takeWhile fun c => ¬ IsWritten c).contains '~'.toUInt8

/-- The frames for a byte, from the text before it and the byte behind it. -/
def byteFrames (speed : UInt8) (before : List UInt8) (c : UInt8) (next : Option UInt8) : List (List UInt8) :=
  if IsSign c then
    if next = some c then [] else [[0x1C, inlineSpeed (before ++ [c]) speed]]
  else if IsWritten c then
    [toUpper c] :: if gapAfter before then List.replicate 4 ['|'.toUInt8] else []
  else []

def framesAt (speed : UInt8) (text : List UInt8) (i : Nat) : List (List UInt8) :=
  byteFrames speed (text.take i) (text.getD i 0) text[i + 1]?

def textFrames (speed : UInt8) (text : List UInt8) : List (List UInt8) :=
  (List.range text.length).flatMap (framesAt speed text)

def restoreFrames (speed : UInt8) (text : List UInt8) : List (List UInt8) :=
  if inlineSpeed text speed ≠ speed then [[0x1C, speed]] else []

theorem gapAfter_append (before : List UInt8) (c : UInt8) :
    gapAfter (before ++ [c]) = (!decide (IsWritten c) && (c == '~'.toUInt8 || gapAfter before)) := by
  by_cases hc : IsWritten c
  · simp [gapAfter, hc]
  · simp [gapAfter, hc, Bool.beq_eq_decide_eq, eq_comm]

theorem readByte_eq (speed : UInt8) (before : List UInt8) (c : UInt8) (next : Option UInt8) (out : List UInt8) :
    readByte c next ⟨inlineSpeed before speed, gapAfter before, out⟩ =
      ⟨inlineSpeed (before ++ [c]) speed, gapAfter (before ++ [c]),
        out ++ (byteFrames speed before c next).flatten⟩ := by
  rw [inlineSpeed_append, gapAfter_append, byteFrames]
  by_cases hsign : IsSign c
  · have hnot : ¬ IsWritten c := fun h => h.2.1 hsign
    have htilde : (c == '~'.toUInt8) = false := by
      rcases hsign with rfl | rfl
      · rfl
      · rfl
    by_cases hnext : next = some c
    · simp [readByte, hsign, hnext, hnot, htilde]
    · simp [readByte, hsign, hnext, hnot, htilde, TextState.changeSpeed, inlineSpeed_append]
  · have hsame (w : UInt8) : inlineSpeed [c] w = w := by
      obtain ⟨hplus, hminus⟩ := not_or.mp hsign
      simp [inlineSpeed, hplus, hminus]
    by_cases htilde : c = '~'.toUInt8
    · have hnot : ¬ IsWritten c := fun h => h.2.2 htilde
      subst htilde
      simp [readByte, hsign, hsame, hnot]
    · by_cases hc : 32 ≤ c
      · have hw : IsWritten c := ⟨hc, hsign, htilde⟩
        cases gapAfter before
        all_goals simp [readByte, hsign, htilde, hc, hsame, hw, TextState.pushChar]
      · have hnot : ¬ IsWritten c := fun h => hc h.1
        simp [readByte, hsign, htilde, hc, hsame, hnot]

theorem framesAt_append (speed : UInt8) (before : List UInt8) (c : UInt8) (after : List UInt8) :
    framesAt speed (before ++ c :: after) before.length = byteFrames speed before c after.head? := by
  have hnext : (before ++ c :: after)[before.length + 1]? = after.head? := by
    rw [List.getElem?_append_right (Nat.le_add_right _ 1), Nat.add_sub_cancel_left, List.getElem?_cons_succ,
      List.head?_eq_getElem?]
  simp [framesAt, hnext, List.getD_eq_getElem?_getD]

theorem scan_eq (speed : UInt8) (before text out : List UInt8) :
    scan text ⟨inlineSpeed before speed, gapAfter before, out⟩ =
      ⟨inlineSpeed (before ++ text) speed, gapAfter (before ++ text),
        out ++ ((List.range' before.length text.length).flatMap
          (framesAt speed (before ++ text))).flatten⟩ := by
  induction text generalizing before out with
  | nil => simp [scan]
  | cons c text ih =>
      rw [scan, readByte_eq, ih, List.append_assoc, List.singleton_append, List.length_cons, List.range'_succ,
        List.flatMap_cons, List.flatten_append, framesAt_append, List.append_assoc, List.length_append,
        List.length_singleton]

/-- The translation of a text is the frames of its bytes and the frame that restores the speed. -/
theorem textMessage_eq (char : CharType) (message : List UInt8) (speed : UInt8) :
    textMessage char message speed =
      (textFrames speed (readText char message) ++ restoreFrames speed (readText char message)).flatten := by
  have hscan := scan_eq speed [] (readText char message) []
  have hstart : inlineSpeed [] speed = speed := by simp [inlineSpeed]
  rw [hstart, show gapAfter [] = false from rfl] at hscan
  rw [textMessage, textLoop_eq, hscan, textFrames, restoreFrames, List.range_eq_range', List.flatten_append]
  dsimp only [List.nil_append, List.length_nil]
  split
  · rfl
  · rfl

end Cwsd.TextScan

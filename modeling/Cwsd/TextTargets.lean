import Cwsd.TextFrames

namespace Cwsd.TextTargets

open CwDaemon NonzeroSpeeds TextScan TextFrames

variable {speed : UInt8} {message : List UInt8}

/-- The bytes 32 to 127 of the message bring the same frames whether char is signed or not. -/
def SameFrames (message : List UInt8) (speed : UInt8) : Prop :=
  if message.headD 0 = esc then toWinkeyer .signed message speed = toWinkeyer .unsigned message speed
  else ∀ i (hi : i < message.length), 32 ≤ message[i] → message[i] ≤ 127 →
    framesAt speed (readText .signed message) i = framesAt speed (readText .unsigned message) i

/-- A byte that brings a frame stands behind a byte of 128 or more. -/
def CutOff (message : List UInt8) : Prop :=
  message.headD 0 ≠ esc ∧
    ∃ before high after, readText .unsigned message = before ++ high :: after ∧ 128 ≤ high ∧
      ∃ c ∈ after, 32 ≤ c ∧ c ≤ 127 ∧ c ≠ '~'.toUInt8

theorem readText_signed (message : List UInt8) :
    readText .signed message = (readText .unsigned message).takeWhile (· < 128) := by
  rw [readText, readText, List.takeWhile_takeWhile]
  congr 1
  funext c
  have hlt := c.toNat_lt
  have hiff : 0 < plainChar .signed c ↔ c < 128 ∧ 0 < plainChar .unsigned c := by
    simp only [plainChar]
    split
    · rename_i hsmall
      exact ⟨fun h => ⟨hsmall, h⟩, fun h => h.2⟩
    · rename_i hbig
      exact ⟨fun h => absurd h (by omega), fun h => absurd h.1 hbig⟩
  simp only [decide_eq_decide.mpr hiff, Bool.decide_and, Bool.decide_eq_true]

theorem byteFrames_next {c : UInt8} {next next' : Option UInt8} (h : next = some c ↔ next' = some c)
    (before : List UInt8) : byteFrames speed before c next = byteFrames speed before c next' := by
  simp only [byteFrames, h]

theorem framesAt_beyond {text : List UInt8} {i : Nat} (hi : text.length ≤ i) :
    framesAt speed text i = [] := by
  have hzero : text.getD i 0 = 0 := by
    rw [List.getD_eq_getElem?_getD, List.getElem?_eq_none hi, Option.getD_none]
  rw [framesAt, hzero]
  rfl

theorem framesAt_append_left {xs ys : List UInt8} {i : Nat} (hi : i < xs.length)
    (hnext : ys.head? ≠ some xs[i]) : framesAt speed (xs ++ ys) i = framesAt speed xs i := by
  have hbyte : (xs ++ ys).getD i 0 = xs[i] := by
    rw [List.getD_eq_getElem?_getD, List.getElem?_append_left hi, List.getElem?_eq_getElem hi, Option.getD_some]
  have hbyte' : xs.getD i 0 = xs[i] := by
    rw [List.getD_eq_getElem?_getD, List.getElem?_eq_getElem hi, Option.getD_some]
  rw [framesAt, framesAt, hbyte, hbyte', List.take_append_of_le_length hi.le]
  apply byteFrames_next
  by_cases hlast : i + 1 < xs.length
  · rw [List.getElem?_append_left hlast]
  · have heq : i + 1 = xs.length := by omega
    rw [List.getElem?_append_right heq.ge, heq, Nat.sub_self, ← List.head?_eq_getElem?,
      List.getElem?_eq_none le_rfl]
    constructor
    · intro h
      exact absurd h hnext
    · intro h
      cases h

theorem framesAt_silent {text : List UInt8} {i : Nat} (hi : i < text.length)
    (hc : text[i] = '~'.toUInt8) : framesAt speed text i = [] := by
  rw [framesAt, List.getD_eq_getElem?_getD, List.getElem?_eq_getElem hi, Option.getD_some, hc]
  rfl

theorem byteFrames_ne_nil {c : UInt8} {next : Option UInt8} (hlow : 32 ≤ c) (htilde : c ≠ '~'.toUInt8)
    (hnext : next ≠ some c) (before : List UInt8) : byteFrames speed before c next ≠ [] := by
  rw [byteFrames]
  by_cases hsign : IsSign c
  · rw [if_pos hsign, if_neg hnext]
    exact List.cons_ne_nil _ _
  · rw [if_neg hsign, if_pos ⟨hlow, hsign, htilde⟩]
    exact List.cons_ne_nil _ _

theorem exists_last {c : UInt8} {xs : List UInt8} (h : c ∈ xs) :
    ∃ before after, xs = before ++ c :: after ∧ after.head? ≠ some c := by
  obtain ⟨as, bs, heq, hnot⟩ := List.eq_append_cons_of_mem (List.mem_reverse.mpr h)
  refine ⟨bs.reverse, as.reverse, ?_, ?_⟩
  · rw [← List.reverse_reverse xs, heq]
    simp
  · intro hhead
    exact hnot (List.mem_reverse.mp (List.mem_of_mem_head? hhead))

theorem getElem_readText {char : CharType} {i : Nat} (hi : i < (readText char message).length) :
    ∃ hlt : i < message.length, message[i] = (readText char message)[i] := by
  have hprefix : readText char message <+: message := List.takeWhile_prefix _
  exact ⟨hi.trans_le hprefix.length_le, (List.IsPrefix.getElem hprefix hi).symm⟩

theorem not_sameFrames (h : CutOff message) : ¬ SameFrames message speed := by
  obtain ⟨hesc, before, high, after, htext, hhigh, c, hmem, hlow, hsmall, htilde⟩ := h
  obtain ⟨mid, rest, rfl, hrest⟩ := exists_last hmem
  have hunsigned : readText .unsigned message = before ++ high :: mid ++ c :: rest := by simp [htext]
  have hbeyond : (readText .signed message).length ≤ (before ++ high :: mid).length := by
    have hstop : ¬ high < 128 := UInt8.not_lt.mpr hhigh
    rw [readText_signed, htext, List.takeWhile_append]
    split
    · simp [hstop]
    · refine (List.takeWhile_sublist _).length_le.trans ?_
      simp
  have hi : (before ++ high :: mid).length < (readText .unsigned message).length := by
    rw [hunsigned]
    simp
  obtain ⟨hlt, hbyte⟩ := getElem_readText hi
  have hc : (readText .unsigned message)[(before ++ high :: mid).length] = c := by simp [hunsigned]
  intro hsame
  rw [SameFrames, if_neg hesc] at hsame
  have hframes := hsame _ hlt (by rw [hbyte, hc]; exact hlow) (by rw [hbyte, hc]; exact hsmall)
  rw [framesAt_beyond hbeyond, hunsigned, framesAt_append] at hframes
  exact byteFrames_ne_nil hlow htilde hrest _ hframes.symm

theorem sameFrames (h : ¬ CutOff message) : SameFrames message speed := by
  rw [SameFrames]
  split
  · rename_i hesc
    rw [toWinkeyer, toWinkeyer, if_neg (not_not.mpr hesc), if_neg (not_not.mpr hesc)]
  rename_i hesc
  intro i hi hlow hsmall
  have hsplit := List.takeWhile_append_dropWhile (p := (· < 128)) (l := readText .unsigned message)
  have hhead := List.head?_dropWhile_not (· < 128) (readText .unsigned message)
  rw [← readText_signed] at hsplit
  cases hrest : (readText .unsigned message).dropWhile (· < 128) with
  | nil =>
      rw [hrest, List.append_nil] at hsplit
      rw [hsplit]
  | cons high after =>
      rw [hrest] at hsplit hhead
      have hhigh : 128 ≤ high := by simpa using hhead
      by_cases hread : i < (readText .signed message).length
      · obtain ⟨_, hbyte⟩ := getElem_readText hread
        rw [← hsplit]
        refine (framesAt_append_left hread ?_).symm
        rintro hnext
        rw [← hbyte, List.head?_cons, Option.some.injEq] at hnext
        exact absurd (hnext ▸ hhigh) (UInt8.not_le.mpr (UInt8.lt_of_le_of_lt hsmall (by decide)))
      rw [framesAt_beyond (Nat.le_of_not_lt hread)]
      by_cases hun : i < (readText .unsigned message).length
      · obtain ⟨_, hbyte⟩ := getElem_readText hun
        by_cases htilde : message[i] = '~'.toUInt8
        · rw [framesAt_silent hun (hbyte ▸ htilde)]
        refine absurd ⟨hesc, _, high, after, hsplit.symm, hhigh, message[i], ?_, hlow, hsmall, htilde⟩ h
        have hmem : message[i] ∈ high :: after := by
          simp only [← hsplit] at hbyte
          rw [hbyte, List.getElem_append_right (Nat.le_of_not_lt hread)]
          exact List.getElem_mem _
        refine (List.mem_cons.mp hmem).resolve_left ?_
        rintro heq
        exact absurd (heq ▸ hhigh) (UInt8.not_le.mpr (UInt8.lt_of_le_of_lt hsmall (by decide)))
      · rw [framesAt_beyond (Nat.le_of_not_lt hun)]

/-- Each target translates a text into the frames of the bytes that its loop reads, and the two agree on the
bytes 32 to 127 exactly when none that brings a frame stands behind a byte of 128 or more. -/
theorem same_frames_iff (message : List UInt8) (speed : UInt8) :
    (message.headD 0 ≠ esc → ∀ char, ∃ bytes, toWinkeyer char message speed = .ok bytes ∧
      frames bytes = some ((List.range (readText char message).length).flatMap
        (framesAt speed (readText char message)) ++ restoreFrames speed (readText char message))) ∧
    (SameFrames message speed ↔ ¬ CutOff message) := by
  refine ⟨?_, fun h hcut => not_sameFrames hcut h, sameFrames⟩
  intro hesc char
  exact ⟨_, by rw [toWinkeyer, if_pos hesc]; rfl, frames_textMessage char message speed⟩

def accented : List UInt8 := [0xC3, 0xA9, 0x41, 0]

theorem accented_cutOff :
    toWinkeyer .signed accented 24 = .ok [] ∧ toWinkeyer .unsigned accented 24 = .ok [0xC3, 0xA9, 0x41] ∧
      ¬ SameFrames accented 24 := by
  refine ⟨?_, ?_, ?_⟩
  · rw [toWinkeyer, if_pos (by decide), textMessage_eq]
    rfl
  · rw [toWinkeyer, if_pos (by decide), textMessage_eq]
    rfl
  · refine not_sameFrames ⟨by decide, [], 0xC3, [0xA9, 0x41], rfl, by decide,
      0x41, by decide, by decide, by decide, by decide⟩

end Cwsd.TextTargets

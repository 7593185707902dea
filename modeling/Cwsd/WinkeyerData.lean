import Cwsd.KeyerPass

namespace Cwsd.WinkeyerData

open KeyerState KeyerMachine KeyerTrack

theorem parameterCount_le (c : UInt8) : parameterCount c ≤ 15 := by
  have hall : ∀ n ∈ winkeyCommandsParameterCount, n ≤ 15 := by decide
  rw [parameterCount, List.getD_eq_getElem?_getD]
  cases h : winkeyCommandsParameterCount[c.toNat]? with
  | none => simp
  | some n => exact hall n (List.mem_of_getElem? h)

theorem toNat_parameterCount (c : UInt8) : (UInt8.ofNat (parameterCount c)).toNat = parameterCount c := by
  have h := parameterCount_le c
  rw [UInt8.toNat_ofNat']
  omega

theorem pos_iff_ne_zero (n : UInt8) : 0 < n ↔ n ≠ 0 := by
  rw [UInt8.lt_iff_toNat_lt, UInt8.toNat_zero, Nat.pos_iff_ne_zero, ne_eq, ne_eq, ← UInt8.toNat_inj,
    UInt8.toNat_zero]

/-- Bytes that may start a frame of the buffer: text, or a buffered command. -/
def FrameHead (c : UInt8) : Prop := 0x18 ≤ c

instance (c : UInt8) : Decidable (FrameHead c) := inferInstanceAs (Decidable (0x18 ≤ c))

theorem isWinkeyerBufferedCommand_of_head {c : UInt8} (h : FrameHead c) :
    isWinkeyerBufferedCommand c = isWinkeyerCommand c := by
  simp only [FrameHead] at h
  simp [isWinkeyerBufferedCommand, isWinkeyerCommand, h]

theorem frameHead_iff (c : UInt8) :
    FrameHead c ↔ ¬ (isWinkeyerCommand c = true ∧ ¬ isWinkeyerBufferedCommand c = true) := by
  simp only [FrameHead, isWinkeyerCommand, isWinkeyerBufferedCommand, Bool.and_eq_true, decide_eq_true_eq]
  constructor
  · intro h hc
    exact hc.2 ⟨hc.1, h⟩
  · intro h
    by_contra hlt
    apply h
    have hle : c ≤ 0x1F := by
      rw [UInt8.le_iff_toNat_le] at hlt ⊢
      simp only [UInt8.reduceToNat] at hlt ⊢
      omega
    exact ⟨hle, fun hb => hlt hb.2⟩

section

variable {F : Type} [SinglePrecision F]

def Puts (k : Keyer F) (c : UInt8) : Prop :=
  k.winkeyerWaitingForArguments = 0 ∧ (k.winkeyerRemainingBufferedArguments ≠ 0 ∨ FrameHead c)

instance (k : Keyer F) (c : UInt8) : Decidable (Puts k c) :=
  inferInstanceAs (Decidable (_ ∧ (_ ∨ _)))

end

def fromByte : Event → Bool
  | .parametersChanged | .cleared | .put _ | .keyDown .immediate | .keyUp .immediate => true
  | _ => false

section

variable {F β : Type} [SinglePrecision F] (view : Keyer F → β)
  (hparser : ∀ (k : Keyer F) command arguments index waiting remaining,
    view { k with
      winkeyerPendingCommand := command
      winkeyerArguments := arguments
      winkeyerArgumentIndex := index
      winkeyerWaitingForArguments := waiting
      winkeyerRemainingBufferedArguments := remaining } = view k)
  (heffect : ∀ (k : Keyer F) speed profile buffer,
    view { k with winkeyerSpeedWpm := speed, profile := profile, winkeyerBuffer := buffer } = view k)
  (hemit : ∀ e (k : Keyer F), fromByte e = true → view (emit e k) = view k)

include heffect hemit

theorem executePending_frame (k : Keyer F) : view (executePending k) = view k := by
  simp only [executePending]
  split
  · exact (hemit .parametersChanged _ rfl).trans (heffect k _ _ k.winkeyerBuffer)
  split
  · exact heffect k k.winkeyerSpeedWpm _ k.winkeyerBuffer
  split
  · exact (hemit .cleared _ rfl).trans (heffect k k.winkeyerSpeedWpm k.profile _)
  split
  · split
    · exact hemit (.keyDown .immediate) k rfl
    · exact hemit (.keyUp .immediate) k rfl
  · rfl

include hparser

/-- A byte leaves everything as it is but the parser, the buffer, the speeds and the profile. -/
theorem winkeyerData_frame (c : UInt8) (k : Keyer F) : view (winkeyerData c k) = view k := by
  simp only [winkeyerData]
  split
  · have hargument := hparser k k.winkeyerPendingCommand (k.winkeyerArguments.set k.winkeyerArgumentIndex.toNat c)
      (k.winkeyerArgumentIndex + 1) (k.winkeyerWaitingForArguments - 1) k.winkeyerRemainingBufferedArguments
    split
    · exact (executePending_frame view heffect hemit _).trans hargument
    · exact hargument
  split
  · have hcommand := hparser k c k.winkeyerArguments 0 (UInt8.ofNat (parameterCount c))
      k.winkeyerRemainingBufferedArguments
    split
    · exact (executePending_frame view heffect hemit _).trans hcommand
    · exact hcommand
  · have hput := (hemit (.put c) _ rfl).trans
      (heffect k k.winkeyerSpeedWpm k.profile (k.winkeyerBuffer.put c))
    exact (hparser _ k.winkeyerPendingCommand k.winkeyerArguments k.winkeyerArgumentIndex
      k.winkeyerWaitingForArguments _).trans hput

end

/-- Everything one byte given to winkeyer_data can do to the track. -/
inductive Feed (c : UInt8) (t t' : Track) : Prop
  | argument (hw : t.waiting ≠ 0) (heq : t' = { t with waiting := t.waiting - 1 })
  | command (hw : t.waiting = 0) (hr : t.remaining = 0) (hc : ¬ FrameHead c) (hne : c ≠ 0x0A)
      (heq : t' = { t with pending := c, waiting := UInt8.ofNat (parameterCount c) })
  | clear (hw : t.waiting = 0) (hr : t.remaining = 0) (hc : c = 0x0A)
      (heq : t' = { t with
        pending := c
        buffer := t.buffer.reset
        marks := .cleared :: t.marks })
  | put (hw : t.waiting = 0) (hput : t.remaining ≠ 0 ∨ FrameHead c)
      (heq : t' = { t with
        buffer := t.buffer.put c
        remaining :=
          if t.remaining ≠ 0 then t.remaining - 1
          else if isWinkeyerCommand c then UInt8.ofNat (parameterCount c) else 0
        marks := .put c :: t.marks })

section

variable {F : Type} [SinglePrecision F]

theorem track_executePending (k : Keyer F) :
    track (executePending k) =
      if k.winkeyerPendingCommand = 0x0A then
        { track k with buffer := k.winkeyerBuffer.reset, marks := .cleared :: (track k).marks }
      else track k := by
  by_cases hclear : k.winkeyerPendingCommand = 0x0A
  · rw [executePending, if_neg (by rw [hclear]; decide), if_neg (by rw [hclear]; decide),
      if_pos hclear, if_pos hclear]
    exact track_emit_mark (by rfl) _
  · rw [if_neg hclear]
    simp only [executePending, hclear, if_false]
    split
    · exact track_emit (by rfl) _
    · split
      · rfl
      · split
        · split
          · exact track_emit (by rfl) k
          · exact track_emit (by rfl) k
        · rfl

omit [SinglePrecision F] in
theorem track_putBuffered (c : UInt8) {k : Keyer F}
    (hput : k.winkeyerRemainingBufferedArguments ≠ 0 ∨ FrameHead c) :
    track (putBuffered c k) = { track k with
      buffer := k.winkeyerBuffer.put c
      remaining :=
        if (track k).remaining ≠ 0 then (track k).remaining - 1
        else if isWinkeyerCommand c then UInt8.ofNat (parameterCount c) else 0
      marks := .put c :: (track k).marks } := by
  have hremaining : (putBuffered c k).winkeyerRemainingBufferedArguments =
      if (track k).remaining ≠ 0 then (track k).remaining - 1
      else if isWinkeyerCommand c then UInt8.ofNat (parameterCount c) else 0 := by
    by_cases hr : k.winkeyerRemainingBufferedArguments = 0
    · have hc := hput.resolve_left (not_not.mpr hr)
      simp [putBuffered, emit, track, hr, isWinkeyerBufferedCommand_of_head hc]
    · simp [putBuffered, emit, track, pos_iff_ne_zero, hr]
  have hmark := track_emit_mark (e := .put c) (by rfl) { k with winkeyerBuffer := k.winkeyerBuffer.put c }
  have heq : track (putBuffered c k) =
      { track (emit (.put c) { k with winkeyerBuffer := k.winkeyerBuffer.put c }) with
        remaining := (putBuffered c k).winkeyerRemainingBufferedArguments } := rfl
  rw [heq, hremaining, hmark]
  rfl

/-- The inversion of winkeyer_data. A command that waits for arguments is never
the one that clears the buffer, which has none. -/
theorem winkeyerData_feeds (c : UInt8) {k : Keyer F}
    (hpend : k.winkeyerWaitingForArguments ≠ 0 → k.winkeyerPendingCommand ≠ 0x0A) :
    Feed c (track k) (track (winkeyerData c k)) := by
  by_cases hw : k.winkeyerWaitingForArguments = 0
  · by_cases hput : k.winkeyerRemainingBufferedArguments ≠ 0 ∨ FrameHead c
    · refine .put hw hput ?_
      rw [winkeyerData, if_neg (by simp [hw]), if_neg, track_putBuffered c hput]
      · rfl
      · intro h
        rcases hput with hr | hc
        · exact hr h.1
        · exact (frameHead_iff c).mp hc h.2
    · simp only [not_or, ne_eq, not_not] at hput
      have hcmd := not_not.mp ((frameHead_iff c).not.mp hput.2)
      rw [winkeyerData, if_neg (by simp [hw]), if_pos ⟨hput.1, hcmd⟩]
      by_cases hclear : c = 0x0A
      · refine .clear hw hput.1 hclear ?_
        subst hclear
        have hzero : UInt8.ofNat (parameterCount 0x0A) = 0 := by decide
        dsimp only
        rw [if_pos hzero, track_executePending, if_pos rfl]
        simp [track, hw, parameterCount, winkeyCommandsParameterCount]
      · refine .command hw hput.1 hput.2 hclear ?_
        dsimp only
        split
        · rw [track_executePending, if_neg hclear]
          rfl
        · rfl
  · refine .argument hw ?_
    rw [winkeyerData, if_pos ((pos_iff_ne_zero _).mpr hw)]
    dsimp only
    split
    · rw [track_executePending, if_neg (hpend hw)]
      rfl
    · rfl

end

end Cwsd.WinkeyerData

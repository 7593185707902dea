import Cwsd.KeyerMachine

namespace Cwsd.KeyerFrame

open KeyerState KeyerMachine CharPatterns

/-- What the key, the side tone and the lights of the paddles get of an element. -/
def isSignal : Event → Bool
  | .toneOn _ | .toneOff | .keyDown .element | .keyUp .element | .ditOn | .ditOff | .dahOn | .dahOff => true
  | _ => false

/-- What the states but idle report while they are current. -/
def isWork : Event → Bool
  | .playStopped | .cleared | .fetched _ _ => true
  | _ => false

theorem filterMap_filter_of_none {α β : Type} {p : α → Bool} {f : α → Option β}
    (hf : ∀ x, p x = false → f x = none) (l : List α) : (l.filter p).filterMap f = l.filterMap f := by
  rw [List.filterMap_filter]
  apply List.filterMap_congr
  intro x _
  cases hx : p x with
  | false => simp [hf x hx]
  | true => simp

theorem filter_filter_of_imp {α : Type} {p q : α → Bool} (hpq : ∀ x, p x = true → q x = true) (l : List α) :
    (l.filter q).filter p = l.filter p := by
  rw [List.filter_filter]
  apply List.filter_congr
  intro x _
  cases hx : p x with
  | false => rfl
  | true => rw [hpq x hx, Bool.and_self]

section

variable {F : Type}

theorem pollPaddles_eq (polled : PaddleSide → Bool) (k : Keyer F) :
    pollPaddles polled k = { k with
      ditBuffered := k.ditBuffered || polled .left
      dahBuffered := k.dahBuffered || polled .right
      paddles := paddleState (k.ditBuffered || polled .left) (k.dahBuffered || polled .right) } := by
  cases hleft : polled .left <;> cases hright : polled .right <;>
    simp [pollPaddles, checkDahPaddle, checkDitPaddle, hleft, hright]

theorem checkOppositePaddle_eq (a : Answers) (k : Keyer F) :
    checkOppositePaddle a k = { k with
      ditBuffered := k.ditBuffered || (decide (k.sentElement ≠ .dit) && a.pressed .left)
      dahBuffered := k.dahBuffered || (decide (k.sentElement = .dit) && a.pressed .right) } := by
  by_cases hsent : k.sentElement = .dit
  · rw [checkOppositePaddle, if_pos hsent, checkDahPaddle, decide_eq_true hsent, decide_eq_false (not_not.mpr hsent)]
    cases hright : a.pressed .right <;> simp
  · rw [checkOppositePaddle, if_neg hsent, checkDitPaddle, decide_eq_true hsent, decide_eq_false hsent]
    cases hleft : a.pressed .left <;> simp

theorem setMemoryAt_memory (slot : UInt8) (i : Int) (c : UInt8) (k : Keyer F) :
    ∃ memory, setMemoryAt slot i c k = { k with memory := memory } := by
  simp only [setMemoryAt]
  split
  · exact ⟨k.memory, rfl⟩
  · exact ⟨_, rfl⟩

theorem setMemory_memory (slot : UInt8) (content : List UInt8) (k : Keyer F) :
    ∃ memory, setMemory slot content k = { k with memory := memory } := by
  have hcells (cells : List (UInt8 × Nat)) (k : Keyer F) :
      ∃ memory, cells.foldl (fun k c => setMemoryAt slot c.2 c.1 k) k = { k with memory := memory } := by
    induction cells generalizing k with
    | nil => exact ⟨k.memory, rfl⟩
    | cons c cells ih =>
        obtain ⟨m, hm⟩ := setMemoryAt_memory slot c.2 c.1 k
        rw [List.foldl_cons, hm]
        exact ih _
  rw [setMemory]
  split
  · exact hcells _ k
  · exact ⟨k.memory, rfl⟩

theorem stopRecording_memory (k : Keyer F) :
    ∃ memory, stopRecording k = emit .recordStopped { k with memory := memory, isRecording := false } := by
  obtain ⟨m, hm⟩ := setMemoryAt_memory k.recordingSlot k.recordingIndex.toNat 0 k
  simp only [stopRecording, hm]
  split
  · obtain ⟨m', hm'⟩ := setMemoryAt_memory k.recordingSlot (k.recordingIndex.toNat - 1) 0 { k with memory := m }
    rw [hm']
    exact ⟨m', rfl⟩
  · exact ⟨m, rfl⟩

theorem addChar_memory (c : UInt8) (k : Keyer F) :
    ∃ memory recording ended, addCharToRecordingMemory c k = { k with
        memory := memory
        recordingIndex := k.recordingIndex + 1
        isRecording := recording
        trace := ended ++ k.trace } ∧ (ended = [] ∨ ended = [.recordStopped]) := by
  obtain ⟨m, hm⟩ := setMemoryAt_memory k.recordingSlot k.recordingIndex.toNat c k
  simp only [addCharToRecordingMemory, hm]
  split
  · exact ⟨m, k.isRecording, [], rfl, .inl rfl⟩
  · obtain ⟨m', hm'⟩ := stopRecording_memory { k with memory := m, recordingIndex := k.recordingIndex + 1 }
    rw [hm']
    exact ⟨m', false, [.recordStopped], rfl, .inr rfl⟩

theorem idleReport_memory (c : UInt8) (k : Keyer F) :
    ∃ memory index recording ended, idleReport c k = { k with
        memory := memory
        recordingIndex := index
        isRecording := recording
        trace := ended ++ .charSent c :: k.trace } ∧ (ended = [] ∨ ended = [.recordStopped]) := by
  simp only [idleReport]
  split
  · obtain ⟨m, recording, ended, heq, hended⟩ := addChar_memory c (emit (.charSent c) k)
    rw [heq]
    exact ⟨m, _, recording, ended, rfl, hended⟩
  · exact ⟨k.memory, k.recordingIndex, k.isRecording, [], rfl, .inl rfl⟩

/-- The keyer without the deadlines of its states and without the signals of its elements. -/
def calm (k : Keyer F) : Keyer F :=
  { k with
    lastSendTime := 0, timeForWordSpace := 0, timeToDecode := 0, sendTimeToExitState := 0
    timeToCheckPaddles := 0, interElementTimeToExitState := 0, interWordTimeToExit := 0
    autospaceTimeToExitState := 0, halfDotGapTimeToExitState := 0
    trace := k.trace.filter fun e => !isSignal e }

/-- What the keyer is in a state besides its deadline: an element goes to the decoder and takes back its latch. -/
def arrive (next : StateType) (k : Keyer F) : Keyer F :=
  match next with
  | .sendElement => { k with
      sentCharData := if k.sentElement = .dit then k.sentCharData <<< 1 else k.sentCharData <<< 1 ||| 1
      sentCharBits := k.sentCharBits + 1
      ditBuffered := k.ditBuffered && decide (k.sentElement ≠ .dit)
      dahBuffered := k.dahBuffered && decide (k.sentElement = .dit) }
  | .interWordSpace => emit (.charSent ' '.toUInt8) k
  | .winkeyer => { k with winkeyerEnabled := true }
  | _ => k

def switched (next : StateType) (k : Keyer F) : Keyer F :=
  arrive next (emit (.entered next k.sentElement) { k with currentState := some next })

theorem calm_exit (a : Answers) (st : StateType) (k : Keyer F) : calm (exit a st k) = calm k := by
  cases st with
  | sendElement =>
      simp only [exit, exitSendElement]
      split <;> rfl
  | _ => rfl

theorem calm_switched (next : StateType) (k : Keyer F) :
    calm (switched next k) = switched next (calm k) := by
  cases next <;> rfl

/-- The keyer without what the states but idle work with: the paddles, the memory that is played and the
WinKeyer buffer. -/
def resting (k : Keyer F) : Keyer F :=
  { k with
    paddles := .none, sentElement := .none, ditBuffered := false, dahBuffered := false
    isPlaying := false, playingCharIndex := 0, playingData := 0, playingBit := 0
    playInterCharSpacePlayed := false, winkeyerBuffer := .ofSize 160 (Nat.succ_pos 159), winkeyerEnabled := false
    winkeyerInterCharSpacePlayed := false, winkeyerSpeedWpm := k.profile.style.characterWpm, lastSendTime := 0
    trace := k.trace.filter fun e => !isWork e }

theorem resting_pollPaddles (polled : PaddleSide → Bool) (k : Keyer F) :
    resting (pollPaddles polled k) = resting k := by
  rw [pollPaddles_eq]
  rfl

theorem resting_checkOppositePaddle (a : Answers) (k : Keyer F) :
    resting (checkOppositePaddle a k) = resting k := by
  rw [checkOppositePaddle_eq]
  rfl

theorem resting_updateIdle (a : Answers) (k : Keyer F) :
    resting (updateIdle a k).2 = resting k ∨
      updateIdle a k = (.idle, idleWordSpace a (idleDecode a (pollPaddles a.polled k))) := by
  have hpoll := resting_pollPaddles a.polled k
  simp only [updateIdle]
  generalize pollPaddles a.polled k = k₁ at hpoll
  split
  · exact .inl hpoll
  split
  · exact .inl hpoll
  split
  · exact .inl hpoll
  · exact .inr rfl

variable [SinglePrecision F]

theorem calm_enter (a : Answers) (next : StateType) (k : Keyer F) :
    calm (enter a next k) = calm (arrive next k) := by
  cases next with
  | sendElement =>
      simp only [enter, enterSendElement]
      split
      · rename_i hdit
        have hdit' : k.sentElement = .dit := hdit
        simp only [arrive]
        rw [if_pos hdit', decide_eq_true hdit', decide_eq_false (not_not.mpr hdit'), Bool.and_false, Bool.and_true]
        rfl
      · rename_i hdit
        have hdit' : ¬ k.sentElement = .dit := hdit
        simp only [arrive]
        rw [if_neg hdit', decide_eq_true hdit', decide_eq_false hdit', Bool.and_false, Bool.and_true]
        rfl
  | _ => rfl

theorem switchTo_eq {a : Answers} {st next : StateType} {k : Keyer F}
    (hst : k.currentState = some st) (hne : next ≠ st) :
    switchTo a next k =
      enter a next (emit (.entered next (exit a st k).sentElement)
        { exit a st k with currentState := some next }) := by
  simp [switchTo, hst, hne]

theorem switchTo_self (a : Answers) {st : StateType} {k : Keyer F} (hst : k.currentState = some st) :
    switchTo a st k = k := by
  rw [switchTo, hst]
  exact if_pos rfl

theorem calm_switchTo (a : Answers) {st next : StateType} {k : Keyer F} (hst : k.currentState = some st)
    (hne : next ≠ st) : calm (switchTo a next k) = calm (switched next k) := by
  have hswitch : switchTo a next k = enter a next (emit (.entered next (exit a st k).sentElement)
    { exit a st k with currentState := some next }) := switchTo_eq hst hne
  rw [hswitch, calm_enter, calm_switched, ← calm_exit a st k, ← calm_switched]
  rfl

/-- What a switch does to any view of the keyer that shows neither a deadline nor a signal. -/
theorem view_switchTo {β : Type} {view : Keyer F → β} (hview : ∀ k, view (calm k) = view k) (a : Answers)
    {st next : StateType} {k : Keyer F} (hst : k.currentState = some st) (hne : next ≠ st) :
    view (switchTo a next k) = view (switched next k) := by
  rw [← hview, calm_switchTo a hst hne, hview]

theorem resting_consume (c : UInt8) (k : Keyer F) : resting (consume c k).2 = resting k := by
  simp only [consume, executeBuffered]
  split
  · split
    · rfl
    · split <;> rfl
  · split
    · rfl
    · split <;> rfl

theorem resting_updateWinkeyer (a : Answers) (k : Keyer F) : resting (updateWinkeyer a k).2 = resting k := by
  have hpoll := resting_pollPaddles a.polled k
  simp only [updateWinkeyer]
  generalize pollPaddles a.polled k = k₁ at hpoll
  split
  · exact hpoll
  split
  · split
    · exact hpoll
    split
    · exact hpoll
    split
    · exact hpoll
    · exact (resting_consume _ k₁).trans hpoll
  · exact hpoll

theorem resting_stateUpdate (a : Answers) {st : StateType} (hidle : st ≠ .idle) (k : Keyer F) :
    resting (stateUpdate a st k).2 = resting k := by
  have hpoll := resting_pollPaddles a.polled k
  have hcheck := resting_checkOppositePaddle a k
  cases st with
  | idle => exact absurd rfl hidle
  | winkeyer => exact resting_updateWinkeyer a k
  | keyDown | tune | autospace | halfDotGap => rfl
  | sendElement =>
      simp only [stateUpdate, updateSendElement]
      split
      · exact hcheck
      · rfl
  | interElementSpace =>
      simp only [stateUpdate, updateInterElementSpace]
      split
      · split
        · exact hcheck
        split
        · exact hcheck
        · exact (resting_pollPaddles a.polled _).trans hcheck
      · exact hcheck
  | interWordSpace =>
      simp only [stateUpdate, updateInterWordSpace]
      split
      · exact hpoll
      · exact hpoll
  | play =>
      simp only [stateUpdate, updatePlay]
      split
      · split
        · rfl
        split
        · rfl
        · split <;> rfl
      · rfl

end

end Cwsd.KeyerFrame

import Cwsd.KeyerState

namespace Cwsd.KeyerMachine

open Morse CharPatterns KeyerState

def winkeyCommandsParameterCount : List Nat :=
  [1, 1, 1, 1, 2, 3, 1, 0, 0, 1, 0, 1, 1, 1, 1, 15, 1, 1, 1, 0, 1, 0, 1, 1, 1, 1, 1, 2, 1, 1, 0, 0]

def parameterCount (c : UInt8) : Nat := winkeyCommandsParameterCount.getD c.toNat 0

def isWinkeyerCommand (c : UInt8) : Bool := decide (c ≤ 0x1F)

def isWinkeyerBufferedCommand (c : UInt8) : Bool := decide (c ≤ 0x1F) && decide (0x18 ≤ c)

section

variable {F : Type} [SinglePrecision F]

def oppositeElement : Element → Element
  | .none => .none
  | .dah => .dit
  | .dit => .dah

def enterIdle (k : Keyer F) : Keyer F :=
  let last := (k.lastSendTime.toNat : F)
  let gap := k.profile.timings.weightedInterElementSpaceMs
  { k with
    timeForWordSpace :=
      SinglePrecision.toUInt32 (last + k.profile.timings.spaceBetweenWordsMs - gap * 1.5)
    timeToDecode := SinglePrecision.toUInt32 (last + gap * 1.05) }

/-- The deadline for checking the paddles adds the dit length times 0.0, so it is
the clock itself. -/
def enterSendElement (a : Answers) (k : Keyer F) : Keyer F :=
  let k := setSidetoneAndTx true k
  let k := { k with
    sendTimeToExitState := a.enterMs + weightedElementLengthMs k k.sentElement
    timeToCheckPaddles := a.checkMs
    sentCharData := k.sentCharData <<< 1
    sentCharBits := k.sentCharBits + 1 }
  if k.sentElement = .dit then emit .ditOn { k with ditBuffered := false }
  else emit .dahOn { k with sentCharData := k.sentCharData ||| 1, dahBuffered := false }

def exitSendElement (a : Answers) (k : Keyer F) : Keyer F :=
  let k := setSidetoneAndTx false { k with lastSendTime := a.exitMs }
  if k.sentElement = .dit then emit .ditOff k else emit .dahOff k

def enterInterElementSpace (a : Answers) (k : Keyer F) : Keyer F :=
  { k with interElementTimeToExitState := a.enterMs + interElementSpaceLengthMs k }

def enterInterWordSpace (k : Keyer F) : Keyer F :=
  emit (.charSent ' '.toUInt8)
    { k with interWordTimeToExit := k.lastSendTime + interWordSpaceLengthMs k }

def enterAutospace (a : Answers) (k : Keyer F) : Keyer F :=
  { k with
    autospaceTimeToExitState :=
      SinglePrecision.toUInt32 ((a.enterMs.toNat : F) + k.profile.timings.spaceBetweenCharsMs -
        k.profile.timings.weightedInterElementSpaceMs) }

def enterHalfDotGap (a : Answers) (k : Keyer F) : Keyer F :=
  { k with halfDotGapTimeToExitState := a.enterMs + weightedElementLengthMs k .dit / 2 }

def enter (a : Answers) : StateType → Keyer F → Keyer F
  | .idle, k => enterIdle k
  | .sendElement, k => enterSendElement a k
  | .interElementSpace, k => enterInterElementSpace a k
  | .interWordSpace, k => enterInterWordSpace k
  | .autospace, k => enterAutospace a k
  | .winkeyer, k => { k with winkeyerEnabled := true }
  | .halfDotGap, k => enterHalfDotGap a k
  | .keyDown, k | .tune, k | .play, k => k

def exit (a : Answers) : StateType → Keyer F → Keyer F
  | .sendElement, k => exitSendElement a k
  | _, k => k

def sendPlayingBit (k : Keyer F) : StateType × Keyer F :=
  (.sendElement,
    { k with
      sentElement := if k.playingData.toNat.testBit (k.playingBit.toNat - 1) then .dah else .dit
      playingBit := k.playingBit - 1 })

def idleReport (c : UInt8) (k : Keyer F) : Keyer F :=
  let k := emit (.charSent c) k
  if k.isRecording then addCharToRecordingMemory c k else k

def idleDecode (a : Answers) (k : Keyer F) : Keyer F :=
  if 0 < k.sentCharBits ∧ k.timeToDecode ≤ a.nowMs then
    idleReport (decodeChar k.sentCharData k.sentCharBits) { k with sentCharData := 0, sentCharBits := 0 }
  else k

def idleWordSpace (a : Answers) (k : Keyer F) : Keyer F :=
  if k.timeForWordSpace < a.updateMs ∧ k.sentElement ≠ .none then
    idleReport ' '.toUInt8 { k with sentElement := .none }
  else k

def updateIdle (a : Answers) (k : Keyer F) : StateType × Keyer F :=
  let k := pollPaddles a.polled k
  if k.ditBuffered && k.dahBuffered then
    (.sendElement,
      { k with
        sentElement := if k.sentElement = .none then .dit else oppositeElement k.sentElement })
  else if k.ditBuffered || k.dahBuffered then
    (.sendElement, { k with sentElement := if k.ditBuffered then .dit else .dah })
  else if k.winkeyerEnabled || !k.winkeyerBuffer.empty then (.winkeyer, k)
  else (.idle, idleWordSpace a (idleDecode a k))

def checkOppositePaddle (a : Answers) (k : Keyer F) : Keyer F :=
  if k.sentElement = .dit then checkDahPaddle a.pressed k else checkDitPaddle a.pressed k

def updateSendElement (a : Answers) (k : Keyer F) : StateType × Keyer F :=
  let k := if k.timeToCheckPaddles ≤ a.nowMs then checkOppositePaddle a k else k
  (if k.sendTimeToExitState ≤ a.nowMs then .interElementSpace else .sendElement, k)

def updateInterElementSpace (a : Answers) (k : Keyer F) : StateType × Keyer F :=
  let k := checkOppositePaddle a k
  if k.interElementTimeToExitState ≤ a.nowMs then
    if k.winkeyerEnabled then (.winkeyer, k)
    else if k.isPlaying then (.play, k)
    else
      let k := pollPaddles a.polled k
      (if k.ditBuffered || k.dahBuffered || !k.profile.style.autospaceEnabled then .idle
        else .autospace, k)
  else (.interElementSpace, k)

def updateInterWordSpace (a : Answers) (k : Keyer F) : StateType × Keyer F :=
  let k := pollPaddles a.polled k
  if k.interWordTimeToExit ≤ a.updateMs then
    (if k.winkeyerEnabled then .winkeyer else .play, { k with lastSendTime := a.updateMs })
  else (.interWordSpace, k)

def afterGap (k : Keyer F) : StateType :=
  if k.isPlaying then .play else if k.winkeyerEnabled then .winkeyer else .idle

def updateAutospace (a : Answers) (k : Keyer F) : StateType × Keyer F :=
  (if k.autospaceTimeToExitState ≤ a.nowMs then afterGap k else .autospace, k)

def updateHalfDotGap (a : Answers) (k : Keyer F) : StateType × Keyer F :=
  (if k.halfDotGapTimeToExitState ≤ a.updateMs then afterGap k else .halfDotGap, k)

def updatePlay (k : Keyer F) : StateType × Keyer F :=
  if k.playingBit = 0 then
    if !k.playInterCharSpacePlayed then (.autospace, { k with playInterCharSpacePlayed := true })
    else
      let c := memoryAt k k.playingSlot k.playingCharIndex.toNat
      let k := { k with playingCharIndex := k.playingCharIndex + 1 }
      if c = 0 then (.idle, stopPlaying k)
      else match getCharPattern c with
        | none => (.interWordSpace, k)
        | some p =>
            sendPlayingBit { k with
              playingData := p.sentCharData
              playingBit := p.sentCharBits
              playInterCharSpacePlayed := false }
  else sendPlayingBit k

def getArguments : Nat → CircularBuffer UInt8 → List UInt8 × CircularBuffer UInt8
  | 0, b => ([], b)
  | n + 1, b =>
      let rest := getArguments n b.get.2
      (b.get.1 :: rest.1, rest.2)

def executeBuffered (c : UInt8) (arguments : List UInt8) (k : Keyer F) : Keyer F :=
  if c = 0x1C then { k with winkeyerSpeedWpm := ((arguments.headD 0).toNat : F) }
  else if c = 0x0A then emit .cleared { k with winkeyerBuffer := k.winkeyerBuffer.reset }
  else k

def consume (c : UInt8) (k : Keyer F) : StateType × Keyer F :=
  let k := { k with winkeyerBuffer := k.winkeyerBuffer.get.2 }
  if isWinkeyerCommand c then
    let arguments := getArguments (parameterCount c) k.winkeyerBuffer
    let k := emit (.fetched c arguments.1) { k with winkeyerBuffer := arguments.2 }
    (.winkeyer, executeBuffered c arguments.1 k)
  else
    let k := emit (.fetched c []) k
    if c = '|'.toUInt8 then (.halfDotGap, k)
    else match getCharPattern c with
      | none => (.interWordSpace, k)
      | some p =>
          sendPlayingBit { k with
            playingData := p.sentCharData
            playingBit := p.sentCharBits
            winkeyerInterCharSpacePlayed := false }

def updateWinkeyer (a : Answers) (k : Keyer F) : StateType × Keyer F :=
  let k := pollPaddles a.polled k
  if k.paddles ≠ .none then
    (.idle, emit .cleared { k with winkeyerEnabled := false, winkeyerBuffer := k.winkeyerBuffer.reset })
  else if k.playingBit = 0 then
    if !k.winkeyerInterCharSpacePlayed then
      (.autospace, { k with winkeyerInterCharSpacePlayed := true })
    else if k.winkeyerBuffer.empty then (.winkeyer, k)
    else
      let c := k.winkeyerBuffer.peek
      if isWinkeyerCommand c && decide (k.winkeyerBuffer.size ≤ parameterCount c) then (.winkeyer, k)
      else consume c k
  else sendPlayingBit k

def stateUpdate (a : Answers) : StateType → Keyer F → StateType × Keyer F
  | .idle, k => updateIdle a k
  | .sendElement, k => updateSendElement a k
  | .keyDown, k | .tune, k => (.idle, k)
  | .interElementSpace, k => updateInterElementSpace a k
  | .interWordSpace, k => updateInterWordSpace a k
  | .play, k => updatePlay k
  | .autospace, k => updateAutospace a k
  | .winkeyer, k => updateWinkeyer a k
  | .halfDotGap, k => updateHalfDotGap a k

def switchTo (a : Answers) (next : StateType) (k : Keyer F) : Keyer F :=
  match k.currentState with
  | none => enter a next (emit (.entered next k.sentElement) { k with currentState := some next })
  | some st =>
      if next = st then k
      else
        let k := exit a st k
        enter a next (emit (.entered next k.sentElement) { k with currentState := some next })

def maxTransitionsPerTick : Nat := 16

/-- The drain loop: one element of the list for each pass that may still run. -/
def updateLoop : List Answers → Keyer F → Keyer F
  | [], k => k
  | a :: rest, k =>
      match k.currentState with
      | none => k
      | some st =>
          let (next, k) := stateUpdate a st k
          if next = st then k else updateLoop rest (switchTo a next k)

def update (hardware : Fin maxTransitionsPerTick → Answers) (k : Keyer F) : Keyer F :=
  updateLoop (List.ofFn hardware) k

def setProfile (k : Keyer F) : Keyer F :=
  let profile := k.profile.updateTimings
  { k with profile := profile, winkeyerSpeedWpm := profile.getSpeed }

def init (a : Answers) (k : Keyer F) : Keyer F :=
  switchTo a .idle <| setProfile
    { k with
      winkeyerSpeedWpm := k.profile.getSpeed, winkeyerEnabled := false
      winkeyerWaitingForArguments := 0, paddles := .none, sentElement := .none
      ditBuffered := false, dahBuffered := false, sentCharBits := 0, sentCharData := 0
      isRecording := false, recordingSlot := 0, isPlaying := false, playingSlot := 0 }

def startPlaying (a : Answers) (slot : UInt8) (k : Keyer F) : Keyer F :=
  emit (.playStarted slot) <| switchTo a .play
    { k with isPlaying := true, playingSlot := slot, playingCharIndex := 0, playingBit := 0 }

def executePending (k : Keyer F) : Keyer F :=
  let argument := k.winkeyerArguments.headD 0
  if k.winkeyerPendingCommand = 0x02 then
    emit .parametersChanged
      { k with
        winkeyerSpeedWpm := (argument.toNat : F)
        profile := k.profile.setSpeed (argument.toNat : F) }
  else if k.winkeyerPendingCommand = 0x03 then
    { k with profile := k.profile.setWeighting argument }
  else if k.winkeyerPendingCommand = 0x0A then
    emit .cleared { k with winkeyerBuffer := k.winkeyerBuffer.reset }
  else if k.winkeyerPendingCommand = 0x0B then
    if argument = 1 then emit (.keyDown .immediate) k else emit (.keyUp .immediate) k
  else k

/-- The buffered path: the byte goes to the buffer, and the counter says how many
of the following bytes belong to it. -/
def putBuffered (c : UInt8) (k : Keyer F) : Keyer F :=
  let k := emit (.put c) { k with winkeyerBuffer := k.winkeyerBuffer.put c }
  { k with
    winkeyerRemainingBufferedArguments :=
      if 0 < k.winkeyerRemainingBufferedArguments then k.winkeyerRemainingBufferedArguments - 1
      else if isWinkeyerCommand c && isWinkeyerBufferedCommand c then UInt8.ofNat (parameterCount c)
      else 0 }

def winkeyerData (c : UInt8) (k : Keyer F) : Keyer F :=
  if 0 < k.winkeyerWaitingForArguments then
    let k := { k with
      winkeyerArguments := k.winkeyerArguments.set k.winkeyerArgumentIndex.toNat c
      winkeyerArgumentIndex := k.winkeyerArgumentIndex + 1
      winkeyerWaitingForArguments := k.winkeyerWaitingForArguments - 1 }
    if k.winkeyerWaitingForArguments = 0 then executePending k else k
  else if k.winkeyerRemainingBufferedArguments = 0 ∧ isWinkeyerCommand c ∧
      ¬ isWinkeyerBufferedCommand c then
    let k := { k with
      winkeyerPendingCommand := c
      winkeyerWaitingForArguments := UInt8.ofNat (parameterCount c)
      winkeyerArgumentIndex := 0 }
    if k.winkeyerWaitingForArguments = 0 then executePending k else k
  else putBuffered c k

def getSpeed (k : Keyer F) : F := k.profile.style.characterWpm

end

end Cwsd.KeyerMachine

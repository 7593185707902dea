import Cwsd.CircularBuffer
import Cwsd.CharPatterns
import Cwsd.Morse

namespace Cwsd.KeyerState

open Morse

inductive Element
  | none | dit | dah
  deriving DecidableEq, Repr

inductive StateType
  | idle | sendElement | keyDown | tune | interElementSpace | interWordSpace | play | autospace
  | winkeyer | halfDotGap
  deriving DecidableEq, Repr

inductive PaddleSide
  | left | right
  deriving DecidableEq, Repr

inductive PaddleState
  | none | dit | dah | both
  deriving DecidableEq, Repr

inductive KeySource
  | element | immediate
  deriving DecidableEq, Repr

/-- The calls on hw_interface, and four marks that no function of the source
reads: a state was entered, a byte was put into the WinKeyer buffer, the buffer
was emptied, a frame was taken out of it. -/
inductive Event
  | toneOn (hz : UInt16)
  | toneOff
  | keyDown (source : KeySource)
  | keyUp (source : KeySource)
  | ditOn
  | ditOff
  | dahOn
  | dahOff
  | charSent (c : UInt8)
  | playStarted (slot : UInt8)
  | playStopped
  | recordStarted (slot : UInt8)
  | recordStopped
  | parametersChanged
  | entered (next : StateType) (sent : Element)
  | put (c : UInt8)
  | cleared
  | fetched (c : UInt8) (arguments : List UInt8)
  deriving DecidableEq, Repr

/-- What the hardware answers during one pass of the loop of update: the clock
at each place that reads it, and the paddles at the single check and at the poll. -/
structure Answers where
  nowMs : UInt32
  updateMs : UInt32
  exitMs : UInt32
  enterMs : UInt32
  checkMs : UInt32
  pressed : PaddleSide → Bool
  polled : PaddleSide → Bool

def Answers.Released (a : Answers) : Prop :=
  ∀ side, a.pressed side = false ∧ a.polled side = false

def Answers.quiet (t : UInt32) : Answers := ⟨t, t, t, t, t, fun _ => false, fun _ => false⟩

theorem Answers.quiet_released (t : UInt32) : (Answers.quiet t).Released := fun _ => ⟨rfl, rfl⟩

structure Profile (F : Type) where
  style : CodeStyle F
  timings : CodeTimings F
  frequency : UInt16
  deriving DecidableEq

/-- keyer_internal_state, the current profile, and the fields the state objects
keep for themselves. The four memory slots lie one after the other in memory,
and trace holds the events so far, newest first. -/
structure Keyer (F : Type) where
  currentState : Option StateType
  paddles : PaddleState
  sentElement : Element
  ditBuffered : Bool
  dahBuffered : Bool
  sentCharData : UInt8
  sentCharBits : UInt8
  isRecording : Bool
  recordingSlot : UInt8
  recordingIndex : UInt16
  isPlaying : Bool
  playingSlot : UInt8
  memory : List UInt8
  playingCharIndex : UInt16
  playingData : UInt16
  playingBit : UInt8
  winkeyerBuffer : CircularBuffer UInt8
  winkeyerEnabled : Bool
  winkeyerPendingCommand : UInt8
  winkeyerWaitingForArguments : UInt8
  winkeyerArguments : List UInt8
  winkeyerArgumentIndex : UInt8
  winkeyerSpeedWpm : F
  lastSendTime : UInt32
  winkeyerRemainingBufferedArguments : UInt8
  profile : Profile F
  timeForWordSpace : UInt32
  timeToDecode : UInt32
  sendTimeToExitState : UInt32
  timeToCheckPaddles : UInt32
  interElementTimeToExitState : UInt32
  interWordTimeToExit : UInt32
  autospaceTimeToExitState : UInt32
  halfDotGapTimeToExitState : UInt32
  playInterCharSpacePlayed : Bool
  winkeyerInterCharSpacePlayed : Bool
  trace : List Event
  deriving DecidableEq

def memorySlots : Nat := 4
def memorySlotSize : Nat := 256

section

variable {F : Type} [SinglePrecision F]

def Profile.zero : Profile F :=
  { style := CodeStyle.default, timings := ⟨0.0, 0.0, 0.0, 0.0, 0.0, 0.0, 0.0⟩, frequency := 500 }

def Profile.updateTimings (p : Profile F) : Profile F :=
  { p with timings := p.style.calculateTimings.1, style := p.style.calculateTimings.2 }

def Profile.setSpeed (p : Profile F) (wpm : F) : Profile F :=
  { p with style := { p.style with characterWpm := wpm, farnsworthWpm := wpm } }.updateTimings

def Profile.setWeighting (p : Profile F) (weighting : UInt8) : Profile F :=
  { p with style := { p.style with weighting := (weighting.toNat : F) } }.updateTimings

def Profile.getSpeed (p : Profile F) : F := p.style.characterWpm

def Keyer.zero : Keyer F :=
  { currentState := none, paddles := .none, sentElement := .none, ditBuffered := false,
    dahBuffered := false, sentCharData := 0, sentCharBits := 0, isRecording := false,
    recordingSlot := 0, recordingIndex := 0, isPlaying := false, playingSlot := 0,
    memory := List.replicate (memorySlots * memorySlotSize) 0, playingCharIndex := 0,
    playingData := 0, playingBit := 0, winkeyerBuffer := .ofSize 160 (by decide),
    winkeyerEnabled := false, winkeyerPendingCommand := 0, winkeyerWaitingForArguments := 0,
    winkeyerArguments := List.replicate 15 0, winkeyerArgumentIndex := 0, winkeyerSpeedWpm := 0.0,
    lastSendTime := 0, winkeyerRemainingBufferedArguments := 0, profile := Profile.zero,
    timeForWordSpace := 0, timeToDecode := 0, sendTimeToExitState := 0, timeToCheckPaddles := 0,
    interElementTimeToExitState := 0, interWordTimeToExit := 0, autospaceTimeToExitState := 0,
    halfDotGapTimeToExitState := 0, playInterCharSpacePlayed := true,
    winkeyerInterCharSpacePlayed := true, trace := [] }

def emit (e : Event) (k : Keyer F) : Keyer F := { k with trace := e :: k.trace }

/-- The cell memory[slot][index]; outside the array nothing is known and the model reads 0. -/
def memoryAt (k : Keyer F) (slot : UInt8) (index : Int) : UInt8 :=
  let address := (slot.toNat * memorySlotSize : Int) + index
  if address < 0 then 0 else k.memory.getD address.toNat 0

def setMemoryAt (slot : UInt8) (index : Int) (c : UInt8) (k : Keyer F) : Keyer F :=
  let address := (slot.toNat * memorySlotSize : Int) + index
  if address < 0 then k else { k with memory := k.memory.set address.toNat c }

/-- The text is cut at its NUL and at the size of the slot; what the slot held behind it stays. -/
def setMemory (slot : UInt8) (content : List UInt8) (k : Keyer F) : Keyer F :=
  if slot.toNat < memorySlots then
    ((content.takeWhile (· ≠ 0)).take (memorySlotSize - 1)).zipIdx.foldl
      (fun k c => setMemoryAt slot c.2 c.1 k) k
  else k

def stopRecording (k : Keyer F) : Keyer F :=
  let k := setMemoryAt k.recordingSlot k.recordingIndex.toNat 0 k
  let last : Int := (k.recordingIndex.toNat : Int) - 1
  let k := if memoryAt k k.recordingSlot last = ' '.toUInt8 then setMemoryAt k.recordingSlot last 0 k else k
  emit .recordStopped { k with isRecording := false }

def addCharToRecordingMemory (c : UInt8) (k : Keyer F) : Keyer F :=
  let k := setMemoryAt k.recordingSlot k.recordingIndex.toNat c k
  let k := { k with recordingIndex := k.recordingIndex + 1 }
  if k.recordingIndex.toNat < memorySlotSize then k else stopRecording k

def startRecording (slot : UInt8) (k : Keyer F) : Keyer F :=
  emit (.recordStarted slot)
    { k with isRecording := true, recordingSlot := slot, recordingIndex := 0 }

def stopPlaying (k : Keyer F) : Keyer F := emit .playStopped { k with isPlaying := false }

def checkDitPaddle (pressed : PaddleSide → Bool) (k : Keyer F) : Keyer F :=
  if pressed .left then { k with ditBuffered := true } else k

def checkDahPaddle (pressed : PaddleSide → Bool) (k : Keyer F) : Keyer F :=
  if pressed .right then { k with dahBuffered := true } else k

def paddleState : Bool → Bool → PaddleState
  | false, false => .none
  | true, false => .dit
  | false, true => .dah
  | true, true => .both

def pollPaddles (polled : PaddleSide → Bool) (k : Keyer F) : Keyer F :=
  let k := checkDahPaddle polled (checkDitPaddle polled k)
  { k with paddles := paddleState k.ditBuffered k.dahBuffered }

def setSidetoneAndTx (on : Bool) (k : Keyer F) : Keyer F :=
  if on then emit (.keyDown .element) (emit (.toneOn k.profile.frequency) k)
  else emit (.keyUp .element) (emit .toneOff k)

def elementLengthMs (k : Keyer F) (e : Element) : UInt32 :=
  SinglePrecision.toUInt32 <|
    if k.winkeyerEnabled then
      if e = .dit then ((1200 : Nat) : F) / k.winkeyerSpeedWpm
      else (((1200 : Nat) : F) * k.profile.style.dahDitRatio) / k.winkeyerSpeedWpm
    else if e = .dit then k.profile.timings.weightedDitMs
    else k.profile.timings.weightedDahMs

def weightedElementLengthMs (k : Keyer F) (e : Element) : UInt32 :=
  SinglePrecision.toUInt32 <|
    if k.winkeyerEnabled then
      ((elementLengthMs k e).toNat : F) * k.profile.style.weighting / 50.0
    else if e = .dit then k.profile.timings.weightedDitMs
    else k.profile.timings.weightedDahMs

def interElementSpaceLengthMs (k : Keyer F) : UInt32 :=
  SinglePrecision.toUInt32 <|
    if k.winkeyerEnabled then
      ((elementLengthMs k .dit).toNat : F) * ((((100 : Nat) : F) - k.profile.style.weighting) / 50.0)
    else k.profile.timings.weightedInterElementSpaceMs

def interWordSpaceLengthMs (k : Keyer F) : UInt32 :=
  if k.winkeyerEnabled then
    elementLengthMs k .dit * k.profile.style.impulsesBetweenWords.toUInt32
  else SinglePrecision.toUInt32 k.profile.timings.spaceBetweenWordsMs

end

end Cwsd.KeyerState

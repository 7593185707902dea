import Cwsd.KeyerFrame

namespace Cwsd.KeyerTrack

open KeyerState KeyerMachine KeyerFrame

def isMark : Event → Bool
  | .entered _ _ | .put _ | .cleared | .fetched _ _ => true
  | _ => false

/-- The part of the keyer that decides which states it enters and what it takes
from its buffer: no deadlines, no timings, no decoder. -/
structure Track where
  state : Option StateType
  buffer : CircularBuffer UInt8
  remaining : UInt8
  waiting : UInt8
  pending : UInt8
  dit : Bool
  dah : Bool
  bit : UInt8
  data : UInt16
  played : Bool
  enabled : Bool
  playing : Bool
  marks : List Event

section

variable {F : Type}

def track (k : Keyer F) : Track :=
  { state := k.currentState, buffer := k.winkeyerBuffer,
    remaining := k.winkeyerRemainingBufferedArguments,
    waiting := k.winkeyerWaitingForArguments, pending := k.winkeyerPendingCommand,
    dit := k.ditBuffered, dah := k.dahBuffered, bit := k.playingBit, data := k.playingData,
    played := k.winkeyerInterCharSpacePlayed, enabled := k.winkeyerEnabled,
    playing := k.isPlaying, marks := k.trace.filter isMark }

theorem track_emit {e : Event} (he : isMark e = false) (k : Keyer F) : track (emit e k) = track k := by
  simp [track, emit, he]

theorem track_emit_mark {e : Event} (he : isMark e = true) (k : Keyer F) :
    track (emit e k) = { track k with marks := e :: (track k).marks } := by
  simp [track, emit, he]

theorem filterMap_filter_isMark {β : Type} {f : Event → Option β} (hf : ∀ e, isMark e = false → f e = none)
    (trace : List Event) : (trace.filter isMark).filterMap f = trace.filterMap f :=
  filterMap_filter_of_none hf trace

theorem track_idleReport (c : UInt8) (k : Keyer F) : track (idleReport c k) = track k := by
  obtain ⟨m, i, recording, ended, heq, rfl | rfl⟩ := idleReport_memory c k
  · rw [heq]
    rfl
  · rw [heq]
    rfl

theorem track_idleDecode (a : Answers) (k : Keyer F) : track (idleDecode a k) = track k := by
  simp only [idleDecode]
  split
  · exact track_idleReport _ _
  · rfl

theorem track_idleWordSpace (a : Answers) (k : Keyer F) : track (idleWordSpace a k) = track k := by
  simp only [idleWordSpace]
  split
  · exact track_idleReport _ _
  · rfl

theorem checkOppositePaddle_released {a : Answers} (ha : a.Released) (k : Keyer F) :
    checkOppositePaddle a k = k := by
  simp [checkOppositePaddle, checkDahPaddle, checkDitPaddle, (ha .left).1, (ha .right).1]

theorem pollPaddles_quiet {a : Answers} (ha : a.Released) {k : Keyer F} (hdit : k.ditBuffered = false)
    (hdah : k.dahBuffered = false) : pollPaddles a.polled k = { k with paddles := .none } := by
  simp [pollPaddles_eq, (ha .left).2, (ha .right).2, hdit, hdah, paddleState]

theorem pollPaddles_released {a : Answers} (ha : a.Released) {k : Keyer F}
    (hdit : k.ditBuffered = false) (hdah : k.dahBuffered = false) :
    ∃ k', pollPaddles a.polled k = k' ∧ k'.paddles = .none ∧ track k' = track k ∧
      k'.sentElement = k.sentElement :=
  ⟨_, pollPaddles_quiet ha hdit hdah, rfl, rfl, rfl⟩

theorem track_calm (k : Keyer F) : track (calm k) = track k := by
  have hmarks : (calm k).trace.filter isMark = k.trace.filter isMark := by
    refine filter_filter_of_imp (fun e he => ?_) k.trace
    cases e <;> first | rfl | cases he
  simp only [track, hmarks]
  rfl

theorem track_arrive (next : StateType) {k : Keyer F} (hdit : k.ditBuffered = false) (hdah : k.dahBuffered = false) :
    track (arrive next k) = { track k with enabled := (track k).enabled || decide (next = .winkeyer) } := by
  cases next with
  | interWordSpace =>
      rw [arrive, track_emit rfl]
      simp [track]
  | _ => simp [arrive, track, hdit, hdah]

variable [SinglePrecision F]

theorem track_switchTo {a : Answers} {st next : StateType} {k : Keyer F}
    (hst : k.currentState = some st) (hne : next ≠ st)
    (hdit : k.ditBuffered = false) (hdah : k.dahBuffered = false) :
    track (switchTo a next k) =
      { track k with
        state := some next
        enabled := (track k).enabled || decide (next = .winkeyer)
        marks := .entered next k.sentElement :: (track k).marks } := by
  rw [view_switchTo track_calm a hst hne, switched, track_arrive next (by exact hdit) (by exact hdah),
    track_emit_mark rfl]
  rfl

end

end Cwsd.KeyerTrack

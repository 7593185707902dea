import Cwsd.CwDaemon
import Cwsd.KeyerMachine
import Cwsd.UdpServer

namespace Cwsd.CwdaemonServer

open KeyerState KeyerMachine CwDaemon Stoi UdpServer

/-- Where client_worker stands: at the test of its loop, in receive, in the loop
over the translated bytes, at the test of the tune time, or in the pair of calls
that ends a tune. -/
inductive ClientPc
  | loop
  | receiving
  | feeding (bytes : List UInt8)
  | polling
  | endTuning (bytes : List UInt8)
  | returned
  deriving DecidableEq, Repr

inductive KeyerPc
  | loop
  | ticking
  | returned
  deriving DecidableEq, Repr

/-- The service with its two threads; isTuning and tuneEndTime are locals of client_worker. -/
structure Service (F : Type) where
  keyer : Keyer F
  isRunning : Bool
  client : ClientPc
  isTuning : Bool
  tuneEndTime : UInt32
  keyerThread : KeyerPc
  deriving DecidableEq

structure Readings where
  nowMs : UInt32
  updateMs : UInt32
  exitMs : UInt32
  enterMs : UInt32
  checkMs : UInt32
  deriving DecidableEq, Repr

def Readings.at (t : UInt32) : Readings := ⟨t, t, t, t, t⟩

def keyInterface (r : Readings) : Answers :=
  { nowMs := r.nowMs, updateMs := r.updateMs, exitMs := r.exitMs, enterMs := r.enterMs
    checkMs := r.checkMs, pressed := fun _ => false, polled := fun _ => false }

structure Input where
  arrived : Option (List UInt8)
  clock : UInt32
  deriving DecidableEq, Repr

def isAbortSendCmd (message : List UInt8) : Bool :=
  decide (1 < message.length) && message.getD 0 0 == 27 && message.getD 1 0 == '4'.toUInt8

def isExitCmd (message : List UInt8) : Bool :=
  decide (1 < message.length) && message.getD 0 0 == 27 && message.getD 1 0 == '5'.toUInt8

def carrierOff : List UInt8 := [0x0B, 0x00]

section

variable {F : Type} [SinglePrecision F]

def startFeeding (wkData : List UInt8) (clock : UInt32) (s : Service F) : Service F :=
  if isTuningCommand wkData then
    { s with
      isTuning := true
      tuneEndTime := clock + 1000 * (wkData.getLastD 0).toUInt32
      client := .feeding wkData.dropLast }
  else { s with client := .feeding wkData }

def handleMessage (char : CharType) (message : List UInt8) (clock : UInt32) (s : Service F) :
    Except StdException (Service F) :=
  let speed := SinglePrecision.toUInt8 (getSpeed s.keyer)
  if isExitCmd message then .ok { s with client := .returned }
  else if s.isTuning && isAbortSendCmd message then .ok { s with client := .endTuning carrierOff }
  else do
    let wkData ← toWinkeyer char message speed
    pure (startFeeding wkData clock s)

/-- One step of client_worker. An exception leaves the thread function. -/
def clientStep (char : CharType) (input : Input) (s : Service F) : Except StdException (Service F) :=
  match s.client with
  | .loop => .ok { s with client := if s.isRunning then .receiving else .returned }
  | .receiving =>
      match receive input.arrived with
      | some message => handleMessage char message input.clock s
      | none => .ok { s with client := .polling }
  | .feeding [] => .ok { s with client := .polling }
  | .feeding (c :: bytes) => .ok { s with keyer := winkeyerData c s.keyer, client := .feeding bytes }
  | .polling =>
      .ok { s with
        client := if s.isTuning && decide (s.tuneEndTime < input.clock) then .endTuning carrierOff else .loop }
  | .endTuning [] => .ok { s with isTuning := false, client := .loop }
  | .endTuning (c :: bytes) => .ok { s with keyer := winkeyerData c s.keyer, client := .endTuning bytes }
  | .returned => .ok s

def keyerStep (hardware : Fin maxTransitionsPerTick → Readings) (s : Service F) : Service F :=
  match s.keyerThread with
  | .loop => { s with keyerThread := if s.isRunning then .ticking else .returned }
  | .ticking =>
      { s with keyer := update (fun i => keyInterface (hardware i)) s.keyer, keyerThread := .loop }
  | .returned => s

/-- The constructor up to the start of the threads; the speed comes in as a byte. -/
def start (a : Readings) (initialWpm : UInt8) : Service F :=
  { keyer := winkeyerData initialWpm (winkeyerData 0x02 (init (keyInterface a) Keyer.zero))
    isRunning := true, client := .loop, isTuning := false, tuneEndTime := 0, keyerThread := .loop }

def runClient (char : CharType) (inputs : Nat → Input) : Nat → Service F → Except StdException (Service F)
  | 0, s => .ok s
  | n + 1, s => do
      let s ← clientStep char (inputs 0) s
      runClient char (fun i => inputs (i + 1)) n s

def Completes (char : CharType) (inputs : Nat → Input) (s s' : Service F) : Prop :=
  ∃ n, runClient char inputs n s = .ok s' ∧ (s'.client = .loop ∨ s'.client = .returned)

theorem Completes.step {char : CharType} {inputs : Nat → Input} {s t s' : Service F}
    (ht : clientStep char (inputs 0) s = .ok t)
    (h : Completes char (fun i => inputs (i + 1)) t s') : Completes char inputs s s' := by
  obtain ⟨n, hn, hend⟩ := h
  refine ⟨n + 1, ?_, hend⟩
  rw [runClient, ht]
  exact hn

theorem completes_endTuning (char : CharType) (inputs : Nat → Input) (bytes : List UInt8) (s : Service F)
    (hs : s.client = .endTuning bytes) : ∃ s', Completes char inputs s s' ∧ s'.client = .loop := by
  induction bytes generalizing inputs s with
  | nil =>
      refine ⟨{ s with isTuning := false, client := .loop }, .step ?_ ⟨0, rfl, .inl rfl⟩, rfl⟩
      simp only [clientStep, hs]
  | cons c bytes ih =>
      obtain ⟨s', hc, hl⟩ := ih (fun i => inputs (i + 1))
        { s with keyer := winkeyerData c s.keyer, client := .endTuning bytes } rfl
      exact ⟨s', hc.step (by simp only [clientStep, hs]), hl⟩

theorem completes_polling (char : CharType) (inputs : Nat → Input) (s : Service F)
    (hs : s.client = .polling) : ∃ s', Completes char inputs s s' ∧ s'.client = .loop := by
  by_cases hend : (s.isTuning && decide (s.tuneEndTime < (inputs 0).clock)) = true
  · obtain ⟨s', hc, hl⟩ := completes_endTuning char (fun i => inputs (i + 1)) carrierOff
      { s with client := .endTuning carrierOff } rfl
    refine ⟨s', hc.step ?_, hl⟩
    simp only [clientStep, hs]
    rw [if_pos hend]
  · refine ⟨{ s with client := .loop }, .step ?_ ⟨0, rfl, .inl rfl⟩, rfl⟩
    simp only [clientStep, hs]
    rw [if_neg hend]

theorem completes_feeding (char : CharType) (inputs : Nat → Input) (bytes : List UInt8) (s : Service F)
    (hs : s.client = .feeding bytes) : ∃ s', Completes char inputs s s' ∧ s'.client = .loop := by
  induction bytes generalizing inputs s with
  | nil =>
      obtain ⟨s', hc, hl⟩ := completes_polling char (fun i => inputs (i + 1))
        { s with client := .polling } rfl
      exact ⟨s', hc.step (by simp only [clientStep, hs]), hl⟩
  | cons c bytes ih =>
      obtain ⟨s', hc, hl⟩ := ih (fun i => inputs (i + 1))
        { s with keyer := winkeyerData c s.keyer, client := .feeding bytes } rfl
      exact ⟨s', hc.step (by simp only [clientStep, hs]), hl⟩

theorem clientStep_receiving (char : CharType) {input : Input} {message : List UInt8} {s : Service F}
    (hs : s.client = .receiving) (hm : receive input.arrived = some message) :
    clientStep char input s = handleMessage char message input.clock s := by
  simp only [clientStep, hs, hm]

theorem numberPresent_of_handled {message : List UInt8} {command : UInt8}
    (hc : command ∉ numericCommands) (h : message.getD 1 0 = command) : NumberPresent message := by
  intro command' text heq hmem
  subst heq
  exact absurd (h ▸ hmem) hc

theorem numberPresent_of_exit {message : List UInt8} (h : isExitCmd message = true) :
    NumberPresent message := by
  simp only [isExitCmd, Bool.and_eq_true, beq_iff_eq] at h
  exact numberPresent_of_handled (by decide) h.2

theorem numberPresent_of_abort {message : List UInt8} (h : isAbortSendCmd message = true) :
    NumberPresent message := by
  simp only [isAbortSendCmd, Bool.and_eq_true, beq_iff_eq] at h
  exact numberPresent_of_handled (by decide) h.2

theorem completes_of_numberPresent (char : CharType) (inputs : Nat → Input) {message : List UInt8}
    {s : Service F} (hs : s.client = .receiving) (hm : receive (inputs 0).arrived = some message)
    (hn : NumberPresent message) :
    ∃ s', Completes char inputs s s' ∧ (s'.client = .returned ↔ isExitCmd message = true) := by
  have hstep := clientStep_receiving char hs hm
  have hlen := receive_length hm
  by_cases hexit : isExitCmd message = true
  · refine ⟨{ s with client := .returned }, .step ?_ ⟨0, rfl, .inr rfl⟩, by simp [hexit]⟩
    rw [hstep, handleMessage, if_pos hexit]
  · have hloop {t : Service F} (ht : clientStep char (inputs 0) s = .ok t)
        (h : ∃ s', Completes char (fun i => inputs (i + 1)) t s' ∧ s'.client = .loop) :
        ∃ s', Completes char inputs s s' ∧ (s'.client = .returned ↔ isExitCmd message = true) := by
      obtain ⟨s', hc, hl⟩ := h
      exact ⟨s', hc.step ht, by simp [hl, hexit]⟩
    rw [hstep, handleMessage, if_neg hexit] at hloop
    by_cases habort : (s.isTuning && isAbortSendCmd message) = true
    · rw [if_pos habort] at hloop
      exact hloop rfl (completes_endTuning char _ carrierOff _ rfl)
    · obtain ⟨wkData, hok⟩ := (toWinkeyer_ok_iff char message hlen
        (SinglePrecision.toUInt8 (getSpeed s.keyer))).mpr hn
      rw [if_neg habort, hok] at hloop
      refine hloop rfl ?_
      simp only [startFeeding]
      split
      · exact completes_feeding char _ wkData.dropLast _ rfl
      · exact completes_feeding char _ wkData _ rfl

theorem not_completes_of_numberAbsent (char : CharType) (inputs : Nat → Input) {message : List UInt8}
    {s s' : Service F} (hs : s.client = .receiving) (hm : receive (inputs 0).arrived = some message)
    (hn : ¬ NumberPresent message) : ¬ Completes char inputs s s' := by
  have hexit : ¬ isExitCmd message = true := fun h => hn (numberPresent_of_exit h)
  have habort : ¬ (s.isTuning && isAbortSendCmd message) = true := fun h =>
    hn (numberPresent_of_abort (Bool.and_eq_true _ _ ▸ h).2)
  have hiff := toWinkeyer_ok_iff char message (receive_length hm) (SinglePrecision.toUInt8 (getSpeed s.keyer))
  rintro ⟨n, hrun, hend⟩
  cases n with
  | zero =>
      cases hrun
      simp [hs] at hend
  | succ n =>
      rw [runClient, clientStep_receiving char hs hm, handleMessage, if_neg hexit, if_neg habort] at hrun
      cases hw : toWinkeyer char message (SinglePrecision.toUInt8 (getSpeed s.keyer)) with
      | ok wkData => exact hn (hiff.mp ⟨wkData, hw⟩)
      | error e =>
          rw [hw] at hrun
          cases hrun

/-- Which datagrams the worker survives. For every delivered message, at every
speed and in every state of the worker, the translation returns and the pass over
the message completes exactly when the number that an escape command asks for is
there and fits an int. -/
theorem client_pass_completes_iff (char : CharType) (inputs : Nat → Input) (message : List UInt8)
    (hm : receive (inputs 0).arrived = some message) (initialSpeed : UInt8) (s : Service F)
    (hs : s.client = .receiving) :
    ((∃ bytes, toWinkeyer char message initialSpeed = .ok bytes) ↔ NumberPresent message) ∧
      ((∃ s', Completes char inputs s s' ∧ (s'.client = .returned ↔ isExitCmd message = true)) ↔
        NumberPresent message) := by
  refine ⟨toWinkeyer_ok_iff char message (receive_length hm) initialSpeed, ?_, ?_⟩
  · rintro ⟨s', hc, -⟩
    by_contra hn
    exact not_completes_of_numberAbsent char inputs hs hm hn hc
  · exact completes_of_numberPresent char inputs hs hm

def listening : Service ℚ := { start (.at 0) 24 with client := .receiving }

theorem speed_with_number_completes :
    ∃ s', Completes .signed (fun _ => ⟨some [27, 0x32, 0x33, 0x30], 0⟩) listening s' ∧
      (s'.client = .returned ↔ isExitCmd [27, 0x32, 0x33, 0x30, 0] = true) := by
  have h := client_pass_completes_iff .signed (fun _ => ⟨some [27, 0x32, 0x33, 0x30], 0⟩)
    [27, 0x32, 0x33, 0x30, 0] (by decide) 24 listening rfl
  exact h.2.mpr (h.1.mp ⟨[0x02, 30], by decide⟩)

/-- ESC 2 with nothing behind it: the conversion throws, and nothing on the way to
the thread function catches it. -/
theorem speed_without_number_throws :
    receive (some [27, 0x32]) = some [27, 0x32, 0] ∧
      toWinkeyer .signed [27, 0x32, 0] 24 = .error .invalidArgument ∧
      clientStep .signed ⟨some [27, 0x32], 0⟩ listening = .error .invalidArgument ∧
      ¬ ∃ s', Completes .signed (fun _ => ⟨some [27, 0x32], 0⟩) listening s' := by
  have hthrow : toWinkeyer .signed [27, 0x32, 0] 24 = .error .invalidArgument := by decide
  have hmessage : receive (some [27, 0x32]) = some [27, 0x32, 0] := by decide
  refine ⟨hmessage, hthrow, rfl, ?_⟩
  rintro ⟨s', hc⟩
  refine not_completes_of_numberAbsent .signed _ rfl hmessage ?_ hc
  rw [← toWinkeyer_ok_iff .signed _ (by decide) 24, hthrow]
  rintro ⟨bytes, hb⟩
  cases hb

end

end Cwsd.CwdaemonServer

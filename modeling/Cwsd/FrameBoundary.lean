import Cwsd.ServiceSteps

namespace Cwsd.FrameBoundary

open KeyerState KeyerMachine CwDaemon UdpServer CwdaemonServer WinkeyerFeed FrameParser KeyLine Framing KeyRelease
    Runs WinkeyerEffects MessageEffects ServiceSteps
open WinkeyerFraming (frameOp)

/-- What is left of a text to be fed: whole frames, or first the argument that a buffered speed
waits for. -/
inductive TextLeft (p : FrameParser) : List UInt8 → Prop
  | frames {w f : UInt8} {rest : List UInt8} (hboundary : p.AtBoundary) (h : Settles w rest f) : TextLeft p rest
  | argument {v w f : UInt8} {rest : List UInt8} (hwaiting : p.waiting = 0) (hremaining : p.remaining = 1)
      (h : Settles w rest f) : TextLeft p (v :: rest)

theorem command_of_lt {c : UInt8} (h : c < 0x20) : isWinkeyerCommand c = true := by
  rw [isWinkeyerCommand, decide_eq_true_eq, UInt8.le_iff_toNat_le]
  rw [UInt8.lt_iff_toNat_lt] at h
  simp only [UInt8.reduceToNat] at h ⊢
  omega

theorem TextLeft.next {p : FrameParser} {c : UInt8} {rest : List UInt8} (h : TextLeft p (c :: rest)) :
    (¬ 0 < p.waiting ∧ ¬ p.Starts c) ∧ (p.remaining = 0 → c < 0x20 → c = 0x1C) ∧ TextLeft (p.feed c) rest := by
  obtain ⟨waiting, pending, index, arguments, remaining⟩ := p
  cases h with
  | frames hboundary h =>
      obtain ⟨hw, hr⟩ := hboundary
      dsimp only at hw hr
      subst hw hr
      cases h with
      | text hc h =>
          refine ⟨by simp [Starts, hc], ?_, .frames ?_ h⟩
          · intro _ hlt
            rw [command_of_lt hlt] at hc
            cases hc
          · simp [AtBoundary, feed, Starts, hc]
      | speed h =>
          have hbuf : isWinkeyerBufferedCommand 0x1C = true := by decide
          have hcmd : isWinkeyerCommand 0x1C = true := by decide
          have hone : UInt8.ofNat (parameterCount 0x1C) = 1 := by decide
          refine ⟨by simp [Starts, hbuf], fun _ _ => rfl, .argument ?_ ?_ h⟩
          · simp [feed, Starts, hbuf]
          · simp [feed, Starts, hbuf, hcmd, hone]
  | argument hw hr h =>
      dsimp only at hw hr
      subst hw hr
      refine ⟨by simp [Starts], by simp, .frames ?_ h⟩
      simp [AtBoundary, feed, Starts]

section

variable {F : Type} [SinglePrecision F]

theorem winkeyerData_put {c : UInt8} {k : Keyer F} (hwaiting : ¬ 0 < (parser k).waiting)
    (hstarts : ¬ (parser k).Starts c) : winkeyerData c k = putBuffered c k :=
  (if_neg hwaiting).trans (if_neg hstarts)

def bufferLog (k : Keyer F) : List (Op UInt8) := k.trace.filterMap frameOp

variable {char : CharType} {s t u u' : Service F} {wkData : List UInt8}

structure Buffering (s : Service F) (wkData : List UInt8) (t : Service F) : Prop where
  unlatched : (pace t.keyer).latched = false
  left : TextLeft (parser t.keyer) (toFeed t.client)
  fed : ∃ fed, wkData = fed ++ toFeed t.client ∧ puts (bufferLog t.keyer) = puts (bufferLog s.keyer) ++ fed

theorem feeding_step {bytes : List UInt8} {act : Action} (hpc : u.client = .feeding bytes)
    (hs : step char u act = some u') :
    (u'.keyer = u.keyer ∧ toFeed u'.client = bytes) ∨
    (∃ c rest, bytes = c :: rest ∧ u'.keyer = winkeyerData c u.keyer ∧ toFeed u'.client = rest) ∨
    ∃ hardware : Fin maxTransitionsPerTick → Readings,
      u'.keyer = update (fun i => keyInterface (hardware i)) u.keyer ∧ toFeed u'.client = bytes := by
  cases act with
  | client input =>
      have hclient := step_client hs
      cases bytes with
      | nil =>
          simp only [clientStep, hpc] at hclient
          cases hclient
          exact .inl ⟨rfl, rfl⟩
      | cons c rest =>
          simp only [clientStep, hpc] at hclient
          cases hclient
          exact .inr (.inl ⟨c, rest, rfl, rfl, rfl⟩)
  | keyer hardware =>
      cases hs
      cases hk : u.keyerThread with
      | loop | returned => exact .inl (by simp [keyerStep, hk, hpc, toFeed])
      | ticking => exact .inr (.inr ⟨hardware, by simp [keyerStep, hk, hpc, toFeed]⟩)
  | stop =>
      cases hs
      exact .inl ⟨rfl, by rw [hpc]; rfl⟩

theorem puts_fetch {p p' : Pace F} (h : Fetch p p') : puts p'.log = puts p.log := by
  cases h with
  | same heq => rw [heq]
  | take _ _ _ _ _ _ _ _ heq =>
      rw [heq]
      simp [puts]
  | reset _ _ _ _ _ heq =>
      rw [heq]
      simp [puts]

theorem buffering_step {act : Action} {bytes : List UInt8} (h : Buffering s wkData u)
    (hpc : u.client = .feeding bytes) (hs : step char u act = some u') : Buffering s wkData u' := by
  obtain ⟨hunlatched, hleft, fed, hfed, hputs⟩ := h
  have hbytes : toFeed u.client = bytes := by rw [hpc]; rfl
  rw [hbytes] at hleft hfed
  rcases feeding_step hpc hs with ⟨hkeyer, hfeed⟩ | ⟨c, rest, rfl, hkeyer, hfeed⟩ | ⟨hardware, hkeyer, hfeed⟩
  · rw [← hkeyer] at hunlatched hleft hputs
    rw [← hfeed] at hleft hfed
    exact ⟨hunlatched, hleft, fed, hfed, hputs⟩
  · obtain ⟨⟨hwaiting, hstarts⟩, -, hrest⟩ := hleft.next
    have hpace := pace_winkeyerData c u.keyer
    rw [effect_put hwaiting hstarts, ← hkeyer] at hpace
    refine ⟨?_, ?_, fed ++ [c], ?_, ?_⟩
    · rw [hpace]
      exact hunlatched
    · rw [hkeyer, parser_winkeyerData, hfeed]
      exact hrest
    · rw [hfeed, hfed, List.append_assoc]
      rfl
    · have hlog : bufferLog u'.keyer = .put c :: bufferLog u.keyer := congrArg Pace.log hpace
      have hput : puts (.put c :: bufferLog u.keyer) = puts (bufferLog u.keyer) ++ [c] := by simp [puts]
      rw [hlog, hput, hputs, List.append_assoc]
  · have hparser : parser u'.keyer = parser u.keyer := by
      rw [hkeyer]
      exact parser_update _ u.keyer
    obtain ⟨hunlatched', hputs'⟩ := update_fetches (fun p => puts p.log = puts (bufferLog s.keyer) ++ fed)
      (fun p p' hf hp => (puts_fetch hf).trans hp) hardware hunlatched hputs
    rw [← hkeyer] at hunlatched' hputs'
    rw [← hparser, ← hfeed] at hleft
    rw [← hfeed] at hfed
    exact ⟨hunlatched', hleft, fed, hfed, hputs'⟩

theorem step_text {input : Input} {message : List UInt8} (hpc : s.client = .receiving)
    (hm : receive input.arrived = some message) (htext : message.headD 0 ≠ esc) :
    step char s (.client input) =
      some { s with client := .feeding (textMessage char message (setSpeed (pace s.keyer))) } := by
  have hexit : ¬ isExitCmd message = true := fun h => htext (headD_of_escape h)
  have habort : ¬ (s.isTuning && isAbortSendCmd message) = true := by
    rw [Bool.and_eq_true]
    exact fun h => htext (headD_of_escape h.2)
  have hw : toWinkeyer char message (SinglePrecision.toUInt8 (getSpeed s.keyer)) =
      .ok (textMessage char message (setSpeed (pace s.keyer))) := if_pos htext
  have hnot := (balanced_textMessage char message (setSpeed (pace s.keyer))).not_tuning
  rw [step, clientStep_receiving char hpc hm, handleMessage, if_neg hexit, if_neg habort, hw]
  simp [bind, Except.bind, pure, Except.pure, startFeeding, hnot, Except.toOption]

theorem step_feeding {c : UInt8} {rest : List UInt8} (h : Buffering s wkData t)
    (hpc : t.client = .feeding (c :: rest)) (input : Input) :
    step char t (.client input) = some { t with keyer := putBuffered c t.keyer, client := .feeding rest } := by
  have hleft := h.left
  rw [hpc] at hleft
  obtain ⟨⟨hwaiting, hstarts⟩, -⟩ := hleft.next
  simp only [step, clientStep, hpc, winkeyerData_put hwaiting hstarts]
  rfl

/-- Every datagram finds the parser between frames. The bytes of a text all go into the buffer: while
the worker feeds them each step of it puts the next one there, and where one of them starts a frame
it is a character or the buffered speed. -/
theorem datagram_between_frames (char : CharType) (a : Readings) (initialWpm : UInt8) (acts : List Action)
    (s : Service F) (h : Run (step char) (fun _ _ => True) (start a initialWpm) acts s)
    (hpc : s.client = .receiving) :
    (s.keyer.winkeyerWaitingForArguments = 0 ∧ s.keyer.winkeyerRemainingBufferedArguments = 0) ∧
    ∀ input message, receive input.arrived = some message → message.headD 0 ≠ esc →
      ∃ wkData s', toWinkeyer char message (SinglePrecision.toUInt8 (getSpeed s.keyer)) = .ok wkData ∧
        step char s (.client input) = some s' ∧ s'.client = .feeding wkData ∧
        ∀ more t, Run (step char) (fun u _ => ∃ bytes, u.client = .feeding bytes) s' more t →
          (∃ fed, wkData = fed ++ toFeed t.client ∧
            puts (bufferLog t.keyer) = puts (bufferLog s.keyer) ++ fed) ∧
          ∀ c rest, t.client = .feeding (c :: rest) →
            (∀ input, step char t (.client input) =
              some { t with keyer := putBuffered c t.keyer, client := .feeding rest }) ∧
            (t.keyer.winkeyerRemainingBufferedArguments = 0 → c < 0x20 → c = 0x1C) := by
  have hready := ready_run h (by rw [hpc]; rfl)
  refine ⟨hready.1, fun input message hm htext => ⟨_, _, if_pos htext, step_text hpc hm htext, rfl, ?_⟩⟩
  intro more t hrun
  have hbuffering := hrun.invariant (Buffering s (textMessage char message (setSpeed (pace s.keyer)))) ?_ ?_
  · refine ⟨hbuffering.fed, fun c rest hfeeding => ⟨step_feeding hbuffering hfeeding, ?_⟩⟩
    have hleft := hbuffering.left
    rw [hfeeding] at hleft
    exact hleft.next.2.1
  · exact ⟨(serving_any h).unlatched, .frames hready.1 (settles_textMessage char message _), [], rfl,
      (List.append_nil _).symm⟩
  · rintro u act u' hu ⟨bytes, hbytes⟩ hs
    exact buffering_step hu hbytes hs

end

/-- A tune has been started, and then a text with a change of speed arrives. -/
theorem text_during_tune_buffered : ∃ s s' : Service ℚ, s.isTuning = true ∧ s.client = .receiving ∧
    (s.keyer.winkeyerWaitingForArguments = 0 ∧ s.keyer.winkeyerRemainingBufferedArguments = 0) ∧
    step .signed s (.client ⟨some [0x45, 0x2B, 0x45], 0⟩) = some s' ∧
    s'.client = .feeding [0x45, 0x1C, 26, 0x45, 0x1C, 24] ∧
    step .signed s' (.client ⟨none, 0⟩) =
      some { s' with keyer := putBuffered 0x45 s'.keyer, client := .feeding [0x1C, 26, 0x45, 0x1C, 24] } := by
  obtain ⟨s, hrun, hview⟩ := run_of_exec_map (step .signed) (fun _ _ => True) (start (.at 0) 24 : Service ℚ)
    [quiet 0, datagram [27, 0x63, 0x35] 0, quiet 0, quiet 0, quiet 0, quiet 0, quiet 0]
    (fun s => (s.isTuning, s.client, SinglePrecision.toUInt8 (getSpeed s.keyer))) (true, .receiving, 24)
    (by decide +kernel)
  simp only [Prod.mk.injEq] at hview
  obtain ⟨htuning, hpc, hspeed⟩ := hview
  obtain ⟨hboundary, htext⟩ := datagram_between_frames .signed (.at 0) 24 _ s hrun hpc
  obtain ⟨wkData, s', hw, hs, hfeeding, hnext⟩ := htext ⟨some [0x45, 0x2B, 0x45], 0⟩ [0x45, 0x2B, 0x45, 0]
    (by decide) (by decide)
  have hbytes : toWinkeyer .signed [0x45, 0x2B, 0x45, 0] 24 = .ok [0x45, 0x1C, 26, 0x45, 0x1C, 24] := by
    decide +kernel
  rw [hspeed, hbytes] at hw
  cases hw
  exact ⟨s, s', htuning, hpc, hboundary, hs, hfeeding, ((hnext [] s' .start).2 0x45 _ hfeeding).1 _⟩

end Cwsd.FrameBoundary

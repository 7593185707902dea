import Cwsd.KeyLine
import Cwsd.Runs

namespace Cwsd.KeyerTransmit

open KeyerState KeyerMachine KeyerFrame KeyerTrack KeyerPass CharPatterns WinkeyerData WinkeyerFeed KeyLine Runs

/-- The argument of the immediate keying command, if the byte makes the parser execute it. -/
def executedKeying (c : UInt8) (p : FrameParser) : Option UInt8 :=
  if (0 < p.waiting ∨ p.Starts c) ∧ (p.feed c).waiting = 0 ∧ (p.feed c).pending = 0x0B then
    some ((p.feed c).arguments.headD 0)
  else none

theorem keys_eq (c : UInt8) (p : FrameParser) :
    p.keys c =
      match executedKeying c p with
      | none => []
      | some argument => if argument = 1 then [.keyDown .immediate] else [.keyUp .immediate] := by
  rw [FrameParser.keys, executedKeying, FrameParser.execute]
  by_cases hexecutes : (0 < p.waiting ∨ p.Starts c) ∧ (p.feed c).waiting = 0
  · by_cases hkeying : (p.feed c).pending = 0x0B
    · have hall : (0 < p.waiting ∨ p.Starts c) ∧ (p.feed c).waiting = 0 ∧ (p.feed c).pending = 0x0B :=
        ⟨hexecutes.1, hexecutes.2, hkeying⟩
      rw [if_pos hexecutes, if_pos hkeying, if_pos hall]
    · rw [if_pos hexecutes, if_neg hkeying, if_neg fun h => hkeying h.2.2]
  · rw [if_neg hexecutes, if_neg fun h => hexecutes ⟨h.1, h.2.1⟩]

/-- The key is down only for an element or for the immediate keying command. -/
def Down (l : Line) (keying : Option UInt8) : Prop :=
  ∀ source, l.calls.head? = some (.keyDown source) → l.state = some .sendElement ∨ keying = some 1

theorem down_switch {l : Line} {keying : Option UInt8} {st next : StateType} (h : Down l keying)
    (hst : l.state = some st) :
    Down { l with state := some next, calls := transitionCalls st next ++ l.calls } keying := by
  intro source hdown
  by_cases hnext : next = .sendElement
  · exact .inl (congrArg some hnext)
  by_cases hsend : st = .sendElement
  · simp [transitionCalls, hnext, hsend] at hdown
  · simp only [transitionCalls, hnext, hsend, if_false, List.nil_append] at hdown
    refine .inr ((h source hdown).resolve_left ?_)
    rw [hst]
    exact fun heq => hsend (Option.some.inj heq)

theorem down_feed {l : Line} {keying : Option UInt8} (h : Down l keying) (c : UInt8) :
    Down { l with parser := l.parser.feed c, calls := l.parser.keys c ++ l.calls }
      ((executedKeying c l.parser).or keying) := by
  intro source hdown
  rw [keys_eq] at hdown
  cases hexecuted : executedKeying c l.parser with
  | none =>
      rw [hexecuted] at hdown
      exact h source hdown
  | some argument =>
      rw [hexecuted] at hdown
      by_cases hone : argument = 1
      · exact .inr (by rw [hone]; rfl)
      · simp [hone] at hdown

def isEntry : Event → Bool
  | .entered _ _ => true
  | _ => false

section

variable {F : Type}

/-- The states entered so far, newest first. -/
def entries (k : Keyer F) : List Event := k.trace.filter isEntry

theorem entries_emit {e : Event} (he : isEntry e = false) (k : Keyer F) : entries (emit e k) = entries k := by
  simp [entries, emit, he]

theorem entries_aside {k k' : Keyer F} (h : Aside k k') : entries k' = entries k := by
  obtain ⟨added, htrace, hadded⟩ := h.trace
  have hnone : added.filter isEntry = [] := by
    rw [List.filter_eq_nil_iff]
    intro e he hentry
    have haside := hadded e he
    cases e <;> simp [isAside, isEntry] at haside hentry
  rw [entries, entries, htrace, List.filter_append, hnone, List.nil_append]

theorem entries_calm (k : Keyer F) : entries (calm k) = entries k := by
  refine filter_filter_of_imp (fun e he => ?_) k.trace
  cases e <;> first | rfl | cases he

theorem entries_switched (next : StateType) (k : Keyer F) :
    entries (switched next k) = .entered next k.sentElement :: entries k := by
  cases next <;> rfl

/-- Where the next state is to send an element, it is a dit or a dah. -/
def Chosen (r : StateType × Keyer F) : Prop := r.1 = .sendElement → r.2.sentElement ≠ .none

theorem chosen_other {next : StateType} (h : next ≠ .sendElement) (k : Keyer F) : Chosen (next, k) :=
  fun heq => absurd heq h

theorem chosen_sendPlayingBit (k : Keyer F) : Chosen (sendPlayingBit k) := by
  intro _
  simp only [sendPlayingBit]
  split <;> simp

theorem oppositeElement_ne {e : Element} (h : e ≠ .none) : oppositeElement e ≠ .none := by
  cases e with
  | none => exact absurd rfl h
  | dit | dah => simp [oppositeElement]

theorem chosen_updateIdle (a : Answers) (k : Keyer F) : Chosen (updateIdle a k) := by
  simp only [updateIdle]
  split
  · intro _
    dsimp only
    split
    · simp
    · exact oppositeElement_ne ‹_›
  split
  · intro _
    dsimp only
    split <;> simp
  split
  · exact chosen_other (by decide) _
  · exact chosen_other (by decide) _

theorem afterGap_ne (k : Keyer F) : afterGap k ≠ .sendElement := by
  rw [afterGap]
  split
  · simp
  · split <;> simp

theorem chosen_updatePlay (k : Keyer F) : Chosen (updatePlay k) := by
  simp only [updatePlay]
  split
  · split
    · exact chosen_other (by decide) _
    split
    · exact chosen_other (by decide) _
    · split
      · exact chosen_other (by decide) _
      · exact chosen_sendPlayingBit _
  · exact chosen_sendPlayingBit k

variable [SinglePrecision F]

theorem entries_switchTo (a : Answers) {st next : StateType} {k : Keyer F} (hst : k.currentState = some st)
    (hne : next ≠ st) : entries (switchTo a next k) = .entered next k.sentElement :: entries k := by
  rw [view_switchTo entries_calm a hst hne, entries_switched]

theorem entries_winkeyerData (c : UInt8) (k : Keyer F) : entries (winkeyerData c k) = entries k := by
  refine winkeyerData_frame entries (fun _ _ _ _ _ _ => rfl) (fun _ _ _ _ => rfl) ?_ c k
  intro e k he
  refine entries_emit ?_ k
  cases e with
  | entered => cases he
  | _ => rfl

theorem chosen_consume (c : UInt8) (k : Keyer F) : Chosen (consume c k) := by
  simp only [consume]
  split
  · exact chosen_other (by decide) _
  · split
    · exact chosen_other (by decide) _
    · split
      · exact chosen_other (by decide) _
      · exact chosen_sendPlayingBit _

theorem chosen_updateWinkeyer (a : Answers) (k : Keyer F) : Chosen (updateWinkeyer a k) := by
  simp only [updateWinkeyer]
  split
  · exact chosen_other (by decide) _
  split
  · split
    · exact chosen_other (by decide) _
    split
    · exact chosen_other (by decide) _
    split
    · exact chosen_other (by decide) _
    · exact chosen_consume _ _
  · exact chosen_sendPlayingBit _

/-- A state that asks for an element has chosen it. -/
theorem chosen_stateUpdate (a : Answers) {st : StateType} (hne : st ≠ .sendElement) (k : Keyer F) :
    Chosen (stateUpdate a st k) := by
  cases st with
  | idle => exact chosen_updateIdle a k
  | sendElement => exact absurd rfl hne
  | keyDown | tune => exact chosen_other (by decide) k
  | interElementSpace =>
      simp only [stateUpdate, updateInterElementSpace]
      split
      · split
        · exact chosen_other (by decide) _
        split
        · exact chosen_other (by decide) _
        · refine chosen_other ?_ _
          split <;> simp
      · exact chosen_other (by decide) _
  | interWordSpace =>
      simp only [stateUpdate, updateInterWordSpace]
      split
      · refine chosen_other ?_ _
        split <;> simp
      · exact chosen_other (by decide) _
  | play => exact chosen_updatePlay k
  | autospace =>
      refine chosen_other ?_ k
      split
      · exact afterGap_ne k
      · simp
  | winkeyer => exact chosen_updateWinkeyer a k
  | halfDotGap =>
      refine chosen_other ?_ k
      split
      · exact afterGap_ne k
      · simp

/-- The calls of the keyer from outside, with what the hardware answers during each. -/
inductive Action
  | data (c : UInt8)
  | tick (hardware : Fin maxTransitionsPerTick → Answers)
  | startPlaying (a : Answers) (slot : UInt8)
  | stopPlaying
  | startRecording (slot : UInt8)
  | stopRecording
  | setMemory (slot : UInt8) (content : List UInt8)

def step (k : Keyer F) : Action → Option (Keyer F)
  | .data c => some (winkeyerData c k)
  | .tick hardware => some (update hardware k)
  | .startPlaying a slot => some (startPlaying a slot k)
  | .stopPlaying => some (stopPlaying k)
  | .startRecording slot => some (startRecording slot k)
  | .stopRecording => some (stopRecording k)
  | .setMemory slot content => some (setMemory slot content k)

/-- The argument of the last immediate keying command executed so far. -/
def noteKeying (k : Keyer F) : Action → Option UInt8 → Option UInt8
  | .data c, keying => (executedKeying c (parser k)).or keying
  | _, keying => keying

structure Accounted (k : Keyer F) (keying : Option UInt8) : Prop where
  started : ∃ st, k.currentState = some st
  down : Down (line k) keying
  chosen : ∀ sent, .entered .sendElement sent ∈ entries k → sent ≠ .none

variable {k k' : Keyer F} {keying : Option UInt8}

omit [SinglePrecision F] in
theorem Accounted.aside (h : Accounted k keying) (haside : Aside k k') : Accounted k' keying := by
  refine ⟨?_, ?_, ?_⟩
  · rw [haside.state]
    exact h.started
  · rw [haside.line]
    exact h.down
  · rw [entries_aside haside]
    exact h.chosen

theorem accounted_switchTo (a : Answers) {st next : StateType} (h : Accounted k keying)
    (hst : k.currentState = some st) (hchosen : next = .sendElement → k.sentElement ≠ .none) :
    Accounted (switchTo a next k) keying := by
  by_cases hne : next = st
  · rw [hne, switchTo_self a hst]
    exact h
  have hline := line_switchTo a hst hne
  refine ⟨⟨next, congrArg Line.state hline⟩, ?_, ?_⟩
  · rw [hline]
    exact down_switch h.down hst
  · intro sent hsent
    rw [entries_switchTo a hst hne] at hsent
    rcases List.mem_cons.mp hsent with heq | hold
    · cases heq
      exact hchosen rfl
    · exact h.chosen sent hold

theorem accounted_pass (a : Answers) (h : Accounted k keying) : Accounted (updatePass a k) keying := by
  obtain ⟨st, hst⟩ := h.started
  have haside := aside_stateUpdate a st k
  obtain ⟨next, k', heq⟩ : ∃ next k', stateUpdate a st k = (next, k') := ⟨_, _, rfl⟩
  rw [heq] at haside
  by_cases hne : next = st
  · rw [pass_stay hst (by rw [heq, hne]), heq]
    exact h.aside haside
  · rw [pass_move hst heq hne]
    refine accounted_switchTo a (h.aside haside) (haside.state.trans hst) fun hnext => ?_
    have hchosen := chosen_stateUpdate a (fun hsend => hne (hnext.trans hsend.symm)) k
    rw [heq] at hchosen
    exact hchosen hnext

theorem accounted_winkeyerData (c : UInt8) (h : Accounted k keying) :
    Accounted (winkeyerData c k) ((executedKeying c (parser k)).or keying) := by
  have hline := line_winkeyerData c k
  refine ⟨?_, ?_, ?_⟩
  · obtain ⟨st, hst⟩ := h.started
    exact ⟨st, (congrArg Line.state hline).trans hst⟩
  · rw [hline]
    exact down_feed h.down c
  · rw [entries_winkeyerData]
    exact h.chosen

omit [SinglePrecision F] in
theorem aside_setMemory (slot : UInt8) (content : List UInt8) (k : Keyer F) :
    Aside k (setMemory slot content k) := by
  obtain ⟨m, hm⟩ := setMemory_memory slot content k
  rw [hm]
  exact aside_of_eq rfl rfl rfl

theorem accounted_startPlaying (a : Answers) (slot : UInt8) (h : Accounted k keying) :
    Accounted (startPlaying a slot k) keying := by
  obtain ⟨st, hst⟩ := h.started
  have hset : Aside k { k with isPlaying := true, playingSlot := slot, playingCharIndex := 0, playingBit := 0 } :=
    aside_of_eq rfl rfl rfl
  have hplay : Accounted (switchTo a .play _) keying := accounted_switchTo a (h.aside hset) hst (by simp)
  exact hplay.aside ((Aside.refl _).emit rfl)

theorem accounted_step {act : Action} (h : Accounted k keying) (hs : step k act = some k') :
    Accounted k' (noteKeying k act keying) := by
  cases act with
  | data c =>
      cases hs
      exact accounted_winkeyerData c h
  | tick hardware =>
      cases hs
      exact update_invariant (Accounted · keying) hardware (fun i _ hk => accounted_pass (hardware i) hk) h
  | startPlaying a slot =>
      cases hs
      exact accounted_startPlaying a slot h
  | stopPlaying =>
      cases hs
      refine h.aside (Aside.emit ?_ (by rfl))
      exact aside_of_eq rfl rfl rfl
  | startRecording slot =>
      cases hs
      refine h.aside (Aside.emit ?_ (by rfl))
      exact aside_of_eq rfl rfl rfl
  | stopRecording =>
      cases hs
      exact h.aside (aside_stopRecording k)
  | setMemory slot content =>
      cases hs
      exact h.aside (aside_setMemory slot content k)

theorem accounted_init (a : Answers) : Accounted (init a (Keyer.zero : Keyer F)) none := by
  have htrace : (init a (Keyer.zero : Keyer F)).trace = [.entered .idle .none] := rfl
  refine ⟨⟨.idle, rfl⟩, ?_, ?_⟩
  · intro source hdown
    rw [line, htrace] at hdown
    cases hdown
  · intro sent hsent
    rw [entries, htrace] at hsent
    simp [isEntry] at hsent

/-- Where the last key call is a key down, an element is being sent or the last immediate keying
command said so; and every element that was sent is a dit or a dah. -/
theorem key_down_accounted (a : Answers) (acts : List Action) (k : Keyer F) (keying : Option UInt8)
    (h : Run (observed step noteKeying) (fun _ _ => True) (init a Keyer.zero, none) acts (k, keying)) :
    (∀ source, k.trace.find? isKeyCall = some (.keyDown source) →
      k.currentState = some .sendElement ∨ keying = some 1) ∧
    ∀ sent, .entered .sendElement sent ∈ k.trace → sent = .dit ∨ sent = .dah := by
  have haccounted : Accounted k keying := by
    refine h.invariant (fun w => Accounted w.1 w.2) (accounted_init a) ?_
    intro w act w' hw _ hstep
    obtain ⟨hs, hnote⟩ := observed_eq_some.mp hstep
    rw [hnote]
    exact accounted_step hw hs
  refine ⟨?_, ?_⟩
  · intro source hdown
    refine haccounted.down source ?_
    rw [line, List.head?_filter]
    exact hdown
  · intro sent hsent
    have hne := haccounted.chosen sent (List.mem_filter.mpr ⟨hsent, rfl⟩)
    cases sent with
    | none => exact absurd rfl hne
    | dit => exact .inl rfl
    | dah => exact .inr rfl

end

/-- An E is played from memory, and when its dit has ended the carrier is switched on. -/
def playedThenKeyed : List Action :=
  [.setMemory 0 [0x45], .startPlaying (.quiet 0) 0, .tick fun _ => .quiet 0, .tick fun _ => .quiet 1000,
    .data 0x0B, .data 1]

theorem playedThenKeyed_accounted : ∃ (k : Keyer ℚ) (keying : Option UInt8),
    k.trace.find? isKeyCall = some (.keyDown .immediate) ∧ k.currentState ≠ some .sendElement ∧ keying = some 1 ∧
      .entered .sendElement .dit ∈ k.trace ∧ .entered .sendElement .none ∉ k.trace := by
  obtain ⟨⟨k, keying⟩, hrun, hview⟩ := run_of_exec_map (observed step noteKeying) (fun _ _ => True)
    (init (.quiet 0) (Keyer.zero : Keyer ℚ), none) playedThenKeyed
    (fun w => (w.1.trace.find? isKeyCall, decide (w.1.currentState ≠ some .sendElement),
      decide (.entered .sendElement .dit ∈ w.1.trace))) (some (.keyDown .immediate), true, true)
    (by decide +kernel)
  simp only [Prod.mk.injEq, decide_eq_true_eq] at hview
  obtain ⟨hdown, hstate, hdit⟩ := hview
  obtain ⟨hlast, hsent⟩ := key_down_accounted (.quiet 0) playedThenKeyed k keying hrun
  refine ⟨k, keying, hdown, hstate, (hlast _ hdown).resolve_left hstate, hdit, ?_⟩
  intro hnone
  rcases hsent _ hnone with heq | heq <;> cases heq

end Cwsd.KeyerTransmit

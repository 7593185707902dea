import Cwsd.WinkeyerFeed

namespace Cwsd.KeyLine

open KeyerState KeyerMachine KeyerFrame KeyerPass WinkeyerFeed

def isKeyCall : Event → Bool
  | .keyDown _ | .keyUp _ => true
  | _ => false

/-- What the key line depends on: the state, the parser of the byte stream, and
the calls so far, newest first. -/
structure Line where
  state : Option StateType
  parser : FrameParser
  calls : List Event

section

variable {F : Type}

def parser (k : Keyer F) : FrameParser :=
  { waiting := k.winkeyerWaitingForArguments, pending := k.winkeyerPendingCommand
    index := k.winkeyerArgumentIndex, arguments := k.winkeyerArguments
    remaining := k.winkeyerRemainingBufferedArguments }

def line (k : Keyer F) : Line := ⟨k.currentState, parser k, k.trace.filter isKeyCall⟩

theorem line_emit {e : Event} (he : isKeyCall e = false) (k : Keyer F) : line (emit e k) = line k := by
  simp [line, emit, he, parser]

theorem line_emit_key {e : Event} (he : isKeyCall e = true) (k : Keyer F) :
    line (emit e k) = { line k with calls := e :: (line k).calls } := by
  simp [line, emit, he, parser]

/-- Everything but a key call and the mark that a state was entered. -/
def isAside : Event → Bool
  | .keyDown _ | .keyUp _ | .entered _ _ => false
  | _ => true

/-- Neither the state nor the parser has changed, and only such events were added. -/
structure Aside (k k' : Keyer F) : Prop where
  state : k'.currentState = k.currentState
  parser : parser k' = parser k
  trace : ∃ added, k'.trace = added ++ k.trace ∧ ∀ e ∈ added, isAside e = true

theorem aside_of_eq {k k' : Keyer F} (hstate : k'.currentState = k.currentState) (hparser : parser k' = parser k)
    (htrace : k'.trace = k.trace) : Aside k k' := ⟨hstate, hparser, [], htrace, by simp⟩

theorem Aside.refl (k : Keyer F) : Aside k k := aside_of_eq rfl rfl rfl

theorem Aside.trans {k k' k'' : Keyer F} (h : Aside k k') (h' : Aside k' k'') : Aside k k'' := by
  obtain ⟨added, htrace, hadded⟩ := h.trace
  obtain ⟨added', htrace', hadded'⟩ := h'.trace
  refine ⟨h'.state.trans h.state, h'.parser.trans h.parser, added' ++ added, ?_, ?_⟩
  · rw [htrace', htrace, List.append_assoc]
  · intro e he
    exact (List.mem_append.mp he).elim (hadded' e) (hadded e)

theorem Aside.emit {k k' : Keyer F} (h : Aside k k') {e : Event} (he : isAside e = true) :
    Aside k (KeyerState.emit e k') :=
  h.trans ⟨rfl, rfl, [e], rfl, by simpa using he⟩

theorem Aside.line {k k' : Keyer F} (h : Aside k k') : line k' = line k := by
  obtain ⟨added, htrace, hadded⟩ := h.trace
  have hnone : added.filter isKeyCall = [] := by
    rw [List.filter_eq_nil_iff]
    intro e he hkey
    have haside := hadded e he
    cases e <;> simp [isAside, isKeyCall] at haside hkey
  rw [KeyLine.line, KeyLine.line, htrace, List.filter_append, hnone, h.state, h.parser, List.nil_append]

theorem aside_stopRecording (k : Keyer F) : Aside k (stopRecording k) := by
  obtain ⟨m, hm⟩ := stopRecording_memory k
  rw [hm]
  refine Aside.emit ?_ rfl
  exact aside_of_eq rfl rfl rfl

theorem aside_idleReport (c : UInt8) (k : Keyer F) : Aside k (idleReport c k) := by
  obtain ⟨m, i, recording, ended, heq, hended⟩ := idleReport_memory c k
  rw [heq]
  refine ⟨rfl, rfl, ended ++ [.charSent c], by simp, ?_⟩
  rcases hended with rfl | rfl
  · simp [isAside]
  · simp [isAside]

theorem aside_idleDecode (a : Answers) (k : Keyer F) : Aside k (idleDecode a k) := by
  have hreset : Aside k { k with sentCharData := 0, sentCharBits := 0 } := aside_of_eq rfl rfl rfl
  simp only [idleDecode]
  split
  · exact hreset.trans (aside_idleReport _ _)
  · exact .refl k

theorem aside_idleWordSpace (a : Answers) (k : Keyer F) : Aside k (idleWordSpace a k) := by
  have hreset : Aside k { k with sentElement := .none } := aside_of_eq rfl rfl rfl
  simp only [idleWordSpace]
  split
  · exact hreset.trans (aside_idleReport _ _)
  · exact .refl k

theorem aside_pollPaddles (polled : PaddleSide → Bool) (k : Keyer F) : Aside k (pollPaddles polled k) := by
  rw [pollPaddles_eq]
  exact aside_of_eq rfl rfl rfl

theorem aside_checkOppositePaddle (a : Answers) (k : Keyer F) : Aside k (checkOppositePaddle a k) := by
  rw [checkOppositePaddle_eq]
  exact aside_of_eq rfl rfl rfl

theorem aside_updateIdle (a : Answers) (k : Keyer F) : Aside k (updateIdle a k).2 := by
  refine (aside_pollPaddles a.polled k).trans ?_
  simp only [updateIdle]
  generalize pollPaddles a.polled k = k₁
  split
  · exact aside_of_eq rfl rfl rfl
  split
  · exact aside_of_eq rfl rfl rfl
  split
  · exact .refl k₁
  · exact (aside_idleDecode a k₁).trans (aside_idleWordSpace a _)

theorem line_exit (a : Answers) (st : StateType) (k : Keyer F) :
    line (exit a st k) =
      { line k with calls := (if st = .sendElement then [.keyUp .element] else []) ++ (line k).calls } := by
  cases st with
  | sendElement =>
      have hkey : line (setSidetoneAndTx false { k with lastSendTime := a.exitMs }) =
          { line k with calls := .keyUp .element :: (line k).calls } :=
        line_emit_key (by rfl) _
      simp only [exit, exitSendElement]
      split
      · exact (line_emit (by rfl) _).trans hkey
      · exact (line_emit (by rfl) _).trans hkey
  | _ => rfl

variable [SinglePrecision F]

theorem aside_consume (c : UInt8) (k : Keyer F) : Aside k (consume c k).2 := by
  have hexec (arguments : List UInt8) (k : Keyer F) : Aside k (executeBuffered c arguments k) := by
    simp only [executeBuffered]
    split
    · exact aside_of_eq rfl rfl rfl
    · split
      · refine Aside.emit ?_ (by rfl)
        exact aside_of_eq rfl rfl rfl
      · exact .refl k
  have hget : Aside k { k with winkeyerBuffer := k.winkeyerBuffer.get.2 } := aside_of_eq rfl rfl rfl
  have hfetched := hget.emit (e := .fetched c []) rfl
  simp only [consume]
  split
  · refine Aside.trans ?_ (hexec _ _)
    refine Aside.emit ?_ (by rfl)
    exact aside_of_eq rfl rfl rfl
  · split
    · exact hfetched
    · split
      · exact hfetched
      · exact hfetched.trans (aside_of_eq rfl rfl rfl)

theorem aside_updateWinkeyer (a : Answers) (k : Keyer F) : Aside k (updateWinkeyer a k).2 := by
  refine (aside_pollPaddles a.polled k).trans ?_
  simp only [updateWinkeyer]
  generalize pollPaddles a.polled k = k₁
  split
  · refine Aside.emit ?_ (by rfl)
    exact aside_of_eq rfl rfl rfl
  split
  · split
    · exact aside_of_eq rfl rfl rfl
    split
    · exact .refl k₁
    split
    · exact .refl k₁
    · exact aside_consume _ k₁
  · exact aside_of_eq rfl rfl rfl

/-- No state keys from its update method, nor touches the parser. -/
theorem aside_stateUpdate (a : Answers) (st : StateType) (k : Keyer F) : Aside k (stateUpdate a st k).2 := by
  cases st with
  | idle => exact aside_updateIdle a k
  | winkeyer => exact aside_updateWinkeyer a k
  | keyDown | tune | autospace | halfDotGap => exact .refl k
  | sendElement =>
      simp only [stateUpdate, updateSendElement]
      split
      · exact aside_checkOppositePaddle a k
      · exact .refl k
  | interElementSpace =>
      refine (aside_checkOppositePaddle a k).trans ?_
      simp only [stateUpdate, updateInterElementSpace]
      generalize checkOppositePaddle a k = k₁
      split
      · split
        · exact .refl k₁
        split
        · exact .refl k₁
        · exact aside_pollPaddles a.polled k₁
      · exact .refl k₁
  | interWordSpace =>
      refine (aside_pollPaddles a.polled k).trans ?_
      simp only [stateUpdate, updateInterWordSpace]
      generalize pollPaddles a.polled k = k₁
      split
      · exact aside_of_eq rfl rfl rfl
      · exact .refl k₁
  | play =>
      simp only [stateUpdate, updatePlay]
      split
      · split
        · exact aside_of_eq rfl rfl rfl
        split
        · refine Aside.emit ?_ (by rfl)
          exact aside_of_eq rfl rfl rfl
        · split <;> exact aside_of_eq rfl rfl rfl
      · exact aside_of_eq rfl rfl rfl

theorem line_stateUpdate (a : Answers) (st : StateType) (k : Keyer F) :
    line (stateUpdate a st k).2 = line k := (aside_stateUpdate a st k).line

def transitionCalls (st next : StateType) : List Event :=
  (if next = .sendElement then [.keyDown .element] else []) ++
    if st = .sendElement then [.keyUp .element] else []

theorem line_enter (a : Answers) (next : StateType) (k : Keyer F) :
    line (enter a next k) =
      { line k with calls := (if next = .sendElement then [.keyDown .element] else []) ++ (line k).calls } := by
  cases next with
  | sendElement =>
      have hkey : line (setSidetoneAndTx true k) =
          { line k with calls := .keyDown .element :: (line k).calls } :=
        line_emit_key (by rfl) _
      simp only [enter, enterSendElement]
      split
      · exact (line_emit (by rfl) _).trans hkey
      · exact (line_emit (by rfl) _).trans hkey
  | interWordSpace => exact line_emit (by rfl) _
  | _ => rfl

theorem line_switchTo (a : Answers) {st next : StateType} {k : Keyer F} (hst : k.currentState = some st)
    (hne : next ≠ st) :
    line (switchTo a next k) =
      { line k with state := some next, calls := transitionCalls st next ++ (line k).calls } := by
  have hx := line_exit a st k
  have hcur (k : Keyer F) :
      line { k with currentState := some next } = { line k with state := some next } := rfl
  rw [switchTo_eq hst hne, line_enter, line_emit (by rfl), hcur, hx]
  simp [transitionCalls]

theorem line_pass (a : Answers) (k : Keyer F) :
    line (updatePass a k) = line k ∨ ∃ st next, k.currentState = some st ∧ next ≠ st ∧
      line (updatePass a k) =
        { line k with state := some next, calls := transitionCalls st next ++ (line k).calls } := by
  cases hst : k.currentState with
  | none =>
      left
      simp [updatePass, hst]
  | some st =>
      have hu := line_stateUpdate a st k
      obtain ⟨next, k', heq⟩ : ∃ next k', stateUpdate a st k = (next, k') := ⟨_, _, rfl⟩
      rw [heq] at hu
      by_cases hne : next = st
      · left
        rw [pass_stay hst (by rw [heq, hne]), heq]
        exact hu
      · right
        refine ⟨st, next, rfl, hne, ?_⟩
        rw [pass_move hst heq hne, line_switchTo a ((congrArg Line.state hu).trans hst) hne, hu]

theorem line_executePending (k : Keyer F) :
    line (executePending k) = { line k with calls := (parser k).execute ++ (line k).calls } := by
  have hexec : (parser k).execute = if k.winkeyerPendingCommand = 0x0B then
      if k.winkeyerArguments.headD 0 = 1 then [.keyDown .immediate] else [.keyUp .immediate] else [] := rfl
  rw [hexec]
  by_cases hkey : k.winkeyerPendingCommand = 0x0B
  · rw [executePending, if_neg (by rw [hkey]; decide), if_neg (by rw [hkey]; decide),
      if_neg (by rw [hkey]; decide), if_pos hkey, if_pos hkey]
    split
    · exact line_emit_key (by rfl) k
    · exact line_emit_key (by rfl) k
  · rw [if_neg hkey]
    simp only [executePending, hkey, if_false, List.nil_append]
    split
    · exact line_emit (by rfl) _
    split
    · rfl
    split
    · exact line_emit (by rfl) _
    · rfl

theorem line_winkeyerData (c : UInt8) (k : Keyer F) :
    line (winkeyerData c k) =
      { line k with
        parser := (line k).parser.feed c
        calls := (line k).parser.keys c ++ (line k).calls } := by
  have hp : (line k).parser = parser k := rfl
  rw [hp, FrameParser.keys, winkeyerData]
  by_cases hw : 0 < k.winkeyerWaitingForArguments
  · have hfeed : (parser k).feed c = { parser k with
        arguments := k.winkeyerArguments.set k.winkeyerArgumentIndex.toNat c
        index := k.winkeyerArgumentIndex + 1
        waiting := k.winkeyerWaitingForArguments - 1 } := if_pos hw
    rw [if_pos hw, hfeed]
    dsimp only
    by_cases hz : k.winkeyerWaitingForArguments - 1 = 0
    · rw [if_pos hz, if_pos ⟨.inl hw, hz⟩, line_executePending]
      rfl
    · rw [if_neg hz, if_neg (fun h => hz h.2)]
      rfl
  · have hw' : ¬ 0 < (parser k).waiting := hw
    rw [if_neg hw]
    by_cases hs : k.winkeyerRemainingBufferedArguments = 0 ∧ isWinkeyerCommand c ∧
        ¬ isWinkeyerBufferedCommand c
    · have hfeed : (parser k).feed c = { parser k with
          pending := c
          waiting := UInt8.ofNat (parameterCount c)
          index := 0 } := by
        rw [FrameParser.feed, if_neg hw']
        exact if_pos hs
      rw [if_pos hs, hfeed]
      dsimp only
      by_cases hz : UInt8.ofNat (parameterCount c) = 0
      · rw [if_pos hz, if_pos ⟨.inr hs, hz⟩, line_executePending]
        rfl
      · rw [if_neg hz, if_neg (fun h => hz h.2)]
        rfl
    · have hfeed : (parser k).feed c = { parser k with
          remaining :=
            if 0 < k.winkeyerRemainingBufferedArguments then k.winkeyerRemainingBufferedArguments - 1
            else if isWinkeyerCommand c && isWinkeyerBufferedCommand c then
              UInt8.ofNat (parameterCount c)
            else 0 } := by
        rw [FrameParser.feed, if_neg hw']
        exact if_neg hs
      rw [if_neg hs, if_neg (fun h => h.1.elim hw hs), hfeed]
      simp [line, parser, putBuffered, emit, isKeyCall]

end

end Cwsd.KeyLine

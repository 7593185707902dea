import Cwsd.KeyerPass
import Cwsd.KeyingSchedule
import Cwsd.WinkeyerData
import Mathlib.Data.List.OfFn

namespace Cwsd.TickKeying

open Morse KeyerState KeyerMachine KeyerFrame KeyerTrack KeyerPass CharPatterns KeyingSchedule

section

variable {F : Type}

def keyChange : Event → Option Bool
  | .keyDown .element => some true
  | .keyUp .element => some false
  | _ => none

/-- What the key has done so far, oldest first. -/
def keyChanges (k : Keyer F) : List Bool := (k.trace.filterMap keyChange).reverse

/-- A character as the sender sees it: one without a pattern is a space. -/
def token (c : UInt8) : Token Element :=
  (getCharPattern c).map fun p =>
    (nextElement p.sentCharData p.sentCharBits, elementsOf p.sentCharData (p.sentCharBits - 1).toNat)

def Sendable (c : UInt8) : Prop := (getCharPattern c).isSome ∨ c = ' '.toUInt8

instance (c : UInt8) : Decidable (Sendable c) := inferInstanceAs (Decidable (_ ∨ _))

theorem sendable_text {c : UInt8} (h : Sendable c) : isWinkeyerCommand c = false ∧ c ≠ '|'.toUInt8 := by
  rcases h with h | rfl
  · obtain ⟨p, hp⟩ := Option.isSome_iff_exists.mp h
    have hall : ∀ p ∈ charTable, isWinkeyerCommand p.character = false ∧ p.character ≠ '|'.toUInt8 := by decide
    have hchar : p.character = c := by simpa using List.find?_some hp
    exact hchar ▸ hall p (List.mem_of_find?_eq_some hp)
  · decide

theorem exitSendElement_eq (a : Answers) (k : Keyer F) :
    ∃ trace, exitSendElement a k = { k with lastSendTime := a.exitMs, trace := trace } ∧
      trace.filterMap keyChange = false :: k.trace.filterMap keyChange := by
  simp only [exitSendElement, setSidetoneAndTx, Bool.false_eq_true, if_false]
  split
  · exact ⟨_, rfl, rfl⟩
  · exact ⟨_, rfl, rfl⟩

variable [SinglePrecision F]

def Ends (a : Answers) (k k' : Keyer F) : Prop :=
  ∃ st, k.currentState = some st ∧ stateUpdate a st k = (st, k')

def Moves (a : Answers) (k k' : Keyer F) : Prop :=
  ∃ st next k₁, k.currentState = some st ∧ stateUpdate a st k = (next, k₁) ∧ next ≠ st ∧
    k' = switchTo a next k₁

theorem updateLoop_ends {a : Answers} {k k' : Keyer F} (h : Ends a k k') (as : List Answers) :
    updateLoop (a :: as) k = k' := by
  obtain ⟨st, hst, hu⟩ := h
  simp [updateLoop, hst, hu]

theorem updateLoop_moves {a : Answers} {k k' : Keyer F} (h : Moves a k k') (as : List Answers) :
    updateLoop (a :: as) k = updateLoop as k' := by
  obtain ⟨st, next, k₁, hst, hu, hne, rfl⟩ := h
  simp [updateLoop, hst, hu, hne]

theorem enterSendElement_eq (a : Answers) {k : Keyer F} (hdit : k.ditBuffered = false)
    (hdah : k.dahBuffered = false) :
    ∃ data bits trace, enterSendElement a k =
        { k with
          sendTimeToExitState := a.enterMs + weightedElementLengthMs k k.sentElement
          timeToCheckPaddles := a.checkMs
          sentCharData := data
          sentCharBits := bits
          trace := trace } ∧
      trace.filterMap keyChange = true :: k.trace.filterMap keyChange := by
  obtain ⟨⟩ := k
  dsimp only at hdit hdah
  subst hdit hdah
  simp only [enterSendElement, setSidetoneAndTx, if_true]
  split
  · exact ⟨_, _, _, rfl, rfl⟩
  · exact ⟨_, _, _, rfl, rfl⟩

end

/-- The lengths of the keyer in whole milliseconds: the gap between letters is longer than the one
between elements by the difference of two spaces. -/
structure Lengths (T : Timings Element) (k : Keyer ℚ) : Prop where
  length : ∀ e, (weightedElementLengthMs k e).toNat = T.length e
  elementGap : (interElementSpaceLengthMs k).toNat = T.elementGap
  wordGap : (interWordSpaceLengthMs k).toNat = T.wordGap
  spaces : ∃ chars elements : ℕ, k.profile.timings.spaceBetweenCharsMs = chars ∧
    k.profile.timings.weightedInterElementSpaceMs = elements ∧ chars = elements + T.letterExtra

def settings (k : Keyer ℚ) : (Profile ℚ × ℚ × Bool) × (Bool × Bool × Bool) :=
  ((k.profile, k.winkeyerSpeedWpm, k.winkeyerEnabled), k.ditBuffered, k.dahBuffered, k.isPlaying)

theorem Lengths.congr {T : Timings Element} {k k' : Keyer ℚ} (h : Lengths T k)
    (heq : (settings k').1 = (settings k).1) : Lengths T k' := by
  obtain ⟨hprofile, hrest⟩ := Prod.mk.inj heq
  obtain ⟨hspeed, henabled⟩ := Prod.mk.inj hrest
  have helement (e : Element) : elementLengthMs k' e = elementLengthMs k e := by
    simp only [elementLengthMs, hprofile, hspeed, henabled]
  refine ⟨fun e => ?_, ?_, ?_, ?_⟩
  · rw [← h.length e]
    simp only [weightedElementLengthMs, helement, hprofile, henabled]
  · rw [← h.elementGap]
    simp only [interElementSpaceLengthMs, helement, hprofile, henabled]
  · rw [← h.wordGap]
    simp only [interWordSpaceLengthMs, helement, hprofile, henabled]
  · rw [hprofile]
    exact h.spaces

def stateOf : Sender Element → StateType
  | .down .. => .sendElement
  | .elementGap .. => .interElementSpace
  | .choosing .. | .spaced .. => .winkeyer
  | .letterGap .. => .autospace
  | .wordGap .. => .interWordSpace

def elementsLeft : Sender Element → List Element
  | .down _ es _ | .elementGap _ _ es _ | .choosing _ es _ => es
  | .letterGap .. | .spaced .. | .wordGap .. => []

def betweenLetters : Sender Element → Bool
  | .down .. | .elementGap .. | .choosing .. => false
  | .letterGap .. | .spaced .. | .wordGap .. => true

def textLeft : Sender Element → List (Token Element)
  | .down _ _ text | .elementGap _ _ _ text | .choosing _ _ text | .letterGap _ _ text | .spaced _ text
  | .wordGap _ text => text

def Times (k : Keyer ℚ) : Sender Element → Prop
  | .down due _ _ => k.sendTimeToExitState.toNat = due
  | .elementGap last due _ _ => k.lastSendTime.toNat = last ∧ k.interElementTimeToExitState.toNat = due
  | .choosing last _ _ | .spaced last _ => k.lastSendTime.toNat = last
  | .letterGap last due _ => k.lastSendTime.toNat = last ∧ k.autospaceTimeToExitState.toNat = due
  | .wordGap due _ => k.interWordTimeToExit.toNat = due

/-- The keyer is sending from its buffer, and is where the sender is. -/
structure Plays (T : Timings Element) (k : Keyer ℚ) (s : Sender Element) : Prop where
  lengths : Lengths T k
  steady : (settings k).1.2.2 = true ∧ (settings k).2 = (false, false, false)
  sendable : ∀ c ∈ k.winkeyerBuffer.contents, Sendable c
  state : k.currentState = some (stateOf s)
  elements : elementsOf k.playingData k.playingBit.toNat = elementsLeft s
  played : k.winkeyerInterCharSpacePlayed = betweenLetters s
  text : k.winkeyerBuffer.contents.map token = textLeft s
  times : Times k s

/-- No length that is added to the clock makes it wrap. -/
structure Room (T : Timings Element) (t : ℕ) : Prop where
  length : ∀ e, t + T.length e < 2 ^ 32
  elementGap : t + T.elementGap < 2 ^ 32
  letterExtra : t + T.letterExtra < 2 ^ 32
  wordGap : t + T.wordGap < 2 ^ 32

section

variable {T : Timings Element} {k : Keyer ℚ} {now : UInt32}

theorem toNat_later {b : UInt32} {n : ℕ} (hb : b.toNat = n) {t : ℕ} {a : UInt32} (ha : a.toNat = t)
    (h : t + n < 2 ^ 32) : (a + b).toNat = t + n := by
  rw [UInt32.toNat_add, ha, hb, Nat.mod_eq_of_lt h]

theorem Plays.congr {s s' : Sender Element} (h : Plays T k s) {k' : Keyer ℚ} (heq : settings k' = settings k)
    (hbuffer : k'.winkeyerBuffer = k.winkeyerBuffer) (hstate : k'.currentState = some (stateOf s'))
    (hbits : k'.playingData = k.playingData ∧ k'.playingBit = k.playingBit)
    (helements : elementsLeft s' = elementsLeft s)
    (hplayed : k'.winkeyerInterCharSpacePlayed = betweenLetters s') (htext : textLeft s' = textLeft s)
    (htimes : Times k' s') : Plays T k' s' where
  lengths := h.lengths.congr (by rw [heq])
  steady := by
    rw [heq]
    exact h.steady
  sendable := by
    rw [hbuffer]
    exact h.sendable
  state := hstate
  elements := by rw [hbits.1, hbits.2, h.elements, helements]
  played := hplayed
  text := by rw [hbuffer, h.text, htext]
  times := htimes

theorem passed_iff {due : UInt32} {n : ℕ} (hdue : due.toNat = n) : due ≤ now ↔ n ≤ now.toNat := by
  rw [UInt32.le_iff_toNat_le, hdue]

theorem updateSendElement_quiet (k : Keyer ℚ) :
    updateSendElement (.quiet now) k =
      (if k.sendTimeToExitState ≤ now then .interElementSpace else .sendElement, k) := by
  rw [updateSendElement, checkOppositePaddle_released (Answers.quiet_released now), ite_self]
  rfl

theorem ends_down {due : ℕ} {es : List Element} {text : List (Token Element)}
    (h : Plays T k (.down due es text)) (hdue : ¬ due ≤ now.toNat) : Ends (.quiet now) k k := by
  have hwait : ¬ k.sendTimeToExitState ≤ now := mt (passed_iff h.times).mp hdue
  exact ⟨.sendElement, h.state, by rw [stateUpdate, updateSendElement_quiet, if_neg hwait]⟩

theorem moves_down {due : ℕ} {es : List Element} {text : List (Token Element)}
    (h : Plays T k (.down due es text)) (hdue : due ≤ now.toNat) (hroom : Room T now.toNat) :
    ∃ k', Moves (.quiet now) k k' ∧
      Plays T k' (.elementGap now.toNat (now.toNat + T.elementGap) es text) ∧
        keyChanges k' = keyChanges k ++ [false] := by
  have hpass : k.sendTimeToExitState ≤ now := (passed_iff h.times).mpr hdue
  have hupdate : stateUpdate (.quiet now) .sendElement k = (.interElementSpace, k) := by
    rw [stateUpdate, updateSendElement_quiet, if_pos hpass]
  obtain ⟨trace, hexit, hkeys⟩ := exitSendElement_eq (.quiet now) k
  have hstate : k.currentState = some .sendElement := h.state
  refine ⟨_, ⟨.sendElement, .interElementSpace, k, hstate, hupdate, by decide, rfl⟩, ?_⟩
  rw [switchTo_eq hstate (by decide)]
  simp only [exit, hexit]
  refine ⟨h.congr rfl rfl rfl ⟨rfl, rfl⟩ rfl h.played rfl ⟨rfl, ?_⟩, ?_⟩
  · exact toNat_later h.lengths.elementGap rfl hroom.elementGap
  · change (trace.filterMap keyChange).reverse = _
    rw [hkeys, List.reverse_cons]
    rfl

theorem moves_winkeyer {s s' : Sender Element} {st : StateType} {k₁ : Keyer ℚ}
    (hupdate : stateUpdate (.quiet now) st k = (.winkeyer, k₁)) (hst : stateOf s = st) (h : Plays T k s)
    (h₁ : Plays T k₁ s) (hkeys : keyChanges k₁ = keyChanges k) (hne : .winkeyer ≠ st)
    (hexit : exit (.quiet now) st k₁ = k₁) (hnext : stateOf s' = .winkeyer)
    (helements : elementsLeft s' = elementsLeft s) (hplayed : betweenLetters s' = betweenLetters s)
    (htext : textLeft s' = textLeft s) (htimes : Times k₁ s') :
    ∃ k', Moves (.quiet now) k k' ∧ Plays T k' s' ∧ keyChanges k' = keyChanges k ++ [] := by
  subst hst
  have henabled : k₁.winkeyerEnabled = true := h₁.steady.1
  refine ⟨_, ⟨stateOf s, .winkeyer, k₁, h.state, hupdate, hne, rfl⟩, ?_⟩
  rw [switchTo_eq h₁.state hne, hexit]
  refine ⟨h₁.congr ?_ rfl (congrArg some hnext.symm) ⟨rfl, rfl⟩ helements (h₁.played.trans hplayed.symm)
    htext ?_, ?_⟩
  · simp [settings, enter, emit, henabled]
  · cases s' <;> exact htimes
  · rw [List.append_nil]
    exact hkeys

theorem ends_elementGap {last due : ℕ} {es : List Element} {text : List (Token Element)}
    (h : Plays T k (.elementGap last due es text)) (hdue : ¬ due ≤ now.toNat) : Ends (.quiet now) k k := by
  have hwait : ¬ k.interElementTimeToExitState ≤ now := mt (passed_iff h.times.2).mp hdue
  refine ⟨.interElementSpace, h.state, ?_⟩
  rw [stateUpdate, updateInterElementSpace, checkOppositePaddle_released (Answers.quiet_released now)]
  exact if_neg hwait

theorem moves_elementGap {last due : ℕ} {es : List Element} {text : List (Token Element)}
    (h : Plays T k (.elementGap last due es text)) (hdue : due ≤ now.toNat) :
    ∃ k', Moves (.quiet now) k k' ∧ Plays T k' (.choosing last es text) ∧
      keyChanges k' = keyChanges k ++ [] := by
  have hpass : k.interElementTimeToExitState ≤ now := (passed_iff h.times.2).mpr hdue
  have henabled : k.winkeyerEnabled = true := h.steady.1
  have hupdate : stateUpdate (.quiet now) .interElementSpace k = (.winkeyer, k) := by
    rw [stateUpdate, updateInterElementSpace, checkOppositePaddle_released (Answers.quiet_released now)]
    refine (if_pos hpass).trans ?_
    rw [if_pos henabled]
  exact moves_winkeyer hupdate rfl h h rfl (by decide) rfl rfl rfl rfl rfl h.times.1

theorem ends_letterGap {last due : ℕ} {text : List (Token Element)}
    (h : Plays T k (.letterGap last due text)) (hdue : ¬ due ≤ now.toNat) : Ends (.quiet now) k k := by
  have hwait : ¬ k.autospaceTimeToExitState ≤ now := mt (passed_iff h.times.2).mp hdue
  refine ⟨.autospace, h.state, ?_⟩
  rw [stateUpdate, updateAutospace]
  exact Prod.ext (if_neg hwait) rfl

theorem moves_letterGap {last due : ℕ} {text : List (Token Element)}
    (h : Plays T k (.letterGap last due text)) (hdue : due ≤ now.toNat) :
    ∃ k', Moves (.quiet now) k k' ∧ Plays T k' (.spaced last text) ∧
      keyChanges k' = keyChanges k ++ [] := by
  have hpass : k.autospaceTimeToExitState ≤ now := (passed_iff h.times.2).mpr hdue
  have henabled : k.winkeyerEnabled = true := h.steady.1
  have hplaying : k.isPlaying = false := congrArg (fun p => p.2.2) h.steady.2
  have hupdate : stateUpdate (.quiet now) .autospace k = (.winkeyer, k) := by
    rw [stateUpdate, updateAutospace]
    refine Prod.ext ((if_pos hpass).trans ?_) rfl
    simp [afterGap, hplaying, henabled]
  exact moves_winkeyer hupdate rfl h h rfl (by decide) rfl rfl rfl rfl rfl h.times.1

theorem ends_wordGap {due : ℕ} {text : List (Token Element)} (h : Plays T k (.wordGap due text))
    (hdue : ¬ due ≤ now.toNat) :
    Ends (.quiet now) k { k with paddles := .none } := by
  have hwait : ¬ k.interWordTimeToExit ≤ now := mt (passed_iff h.times).mp hdue
  refine ⟨.interWordSpace, h.state, ?_⟩
  rw [stateUpdate, updateInterWordSpace, pollPaddles_quiet (Answers.quiet_released now)
    (congrArg (fun p => p.1) h.steady.2) (congrArg (fun p => p.2.1) h.steady.2)]
  exact if_neg hwait

theorem moves_wordGap {due : ℕ} {text : List (Token Element)} (h : Plays T k (.wordGap due text))
    (hdue : due ≤ now.toNat) :
    ∃ k', Moves (.quiet now) k k' ∧ Plays T k' (.spaced now.toNat text) ∧
      keyChanges k' = keyChanges k ++ [] := by
  have hpass : k.interWordTimeToExit ≤ now := (passed_iff h.times).mpr hdue
  have henabled : k.winkeyerEnabled = true := h.steady.1
  have hupdate : stateUpdate (.quiet now) .interWordSpace k =
      (.winkeyer, { k with paddles := .none, lastSendTime := now }) := by
    rw [stateUpdate, updateInterWordSpace, pollPaddles_quiet (Answers.quiet_released now)
      (congrArg (fun p => p.1) h.steady.2) (congrArg (fun p => p.2.1) h.steady.2)]
    refine (if_pos hpass).trans ?_
    rw [if_pos henabled]
    rfl
  have hplays : Plays T { k with paddles := .none, lastSendTime := now } (.wordGap due text) :=
    h.congr rfl rfl h.state ⟨rfl, rfl⟩ rfl h.played rfl h.times
  exact moves_winkeyer hupdate rfl h hplays rfl (by decide) rfl rfl rfl rfl rfl rfl

theorem updateWinkeyer_quiet {s : Sender Element} (h : Plays T k s) :
    updateWinkeyer (.quiet now) k =
      let k := { k with paddles := .none }
      if k.playingBit = 0 then
        if !k.winkeyerInterCharSpacePlayed then
          (.autospace, { k with winkeyerInterCharSpacePlayed := true })
        else if k.winkeyerBuffer.empty then (.winkeyer, k)
        else if isWinkeyerCommand k.winkeyerBuffer.peek &&
            decide (k.winkeyerBuffer.size ≤ parameterCount k.winkeyerBuffer.peek) then (.winkeyer, k)
        else consume k.winkeyerBuffer.peek k
      else sendPlayingBit k := by
  rw [updateWinkeyer, pollPaddles_quiet (Answers.quiet_released now)
    (congrArg (fun p => p.1) h.steady.2) (congrArg (fun p => p.2.1) h.steady.2)]
  rfl

theorem playingBit_eq_zero {s : Sender Element} (h : Plays T k s) (hs : elementsLeft s = []) :
    k.playingBit = 0 := by
  by_contra hne
  have helements := h.elements
  rw [elementsOf_pos _ hne, hs] at helements
  cases helements

theorem sends {k₁ : Keyer ℚ} {e : Element} {es : List Element} {text : List (Token Element)}
    (hlengths : Lengths T k₁) (hsteady : (settings k₁).1.2.2 = true ∧ (settings k₁).2 = (false, false, false))
    (hsendable : ∀ c ∈ k₁.winkeyerBuffer.contents, Sendable c) (hstate : k₁.currentState = some .winkeyer)
    (hsent : k₁.sentElement = e) (helements : elementsOf k₁.playingData k₁.playingBit.toNat = es)
    (hplayed : k₁.winkeyerInterCharSpacePlayed = false)
    (htext : k₁.winkeyerBuffer.contents.map token = text) (hroom : Room T now.toNat) :
    Plays T (switchTo (.quiet now) .sendElement k₁) (.down (now.toNat + T.length e) es text) ∧
      keyChanges (switchTo (.quiet now) .sendElement k₁) = keyChanges k₁ ++ [true] := by
  obtain ⟨data, bits, trace, henter, hkeys⟩ := enterSendElement_eq (.quiet now)
    (k := emit (.entered .sendElement k₁.sentElement) { k₁ with currentState := some .sendElement })
    (congrArg (fun p => p.1) hsteady.2) (congrArg (fun p => p.2.1) hsteady.2)
  rw [switchTo_eq hstate (by decide)]
  simp only [exit, enter, henter]
  refine ⟨⟨hlengths.congr rfl, hsteady, hsendable, rfl, helements, hplayed, htext, ?_⟩, ?_⟩
  · have hlength := hlengths.length e
    rw [← hsent] at hlength ⊢
    exact toNat_later hlength rfl (hroom.length _)
  · change (trace.filterMap keyChange).reverse = _
    rw [hkeys, List.reverse_cons]
    rfl

theorem moves_choosing {last : ℕ} {e : Element} {es : List Element} {text : List (Token Element)}
    (h : Plays T k (.choosing last (e :: es) text)) (hroom : Room T now.toNat) :
    ∃ k', Moves (.quiet now) k k' ∧ Plays T k' (.down (now.toNat + T.length e) es text) ∧
      keyChanges k' = keyChanges k ++ [true] := by
  have hbit : k.playingBit ≠ 0 := by
    intro hzero
    have helements := h.elements
    rw [hzero] at helements
    cases helements
  have helements := h.elements
  rw [elementsOf_pos _ hbit] at helements
  obtain ⟨hfirst, hrest⟩ := List.cons.inj helements
  have hupdate : stateUpdate (.quiet now) .winkeyer k = sendPlayingBit { k with paddles := .none } := by
    rw [stateUpdate, updateWinkeyer_quiet h]
    exact if_neg hbit
  refine ⟨_, ⟨.winkeyer, .sendElement, _, h.state, hupdate, by decide, rfl⟩, ?_⟩
  exact sends (h.lengths.congr rfl) h.steady h.sendable h.state hfirst hrest h.played h.text hroom

theorem toNat_autospace (h : Lengths T k) (hroom : now.toNat + T.letterExtra < 2 ^ 32) :
    (SinglePrecision.toUInt32 ((now.toNat : ℚ) + k.profile.timings.spaceBetweenCharsMs -
      k.profile.timings.weightedInterElementSpaceMs)).toNat = now.toNat + T.letterExtra := by
  obtain ⟨chars, elements, hchars, helements, heq⟩ := h.spaces
  have hsum : (now.toNat : ℚ) + chars - elements = (now.toNat + T.letterExtra : ℕ) := by
    rw [heq]
    push_cast
    ring
  rw [hchars, helements, hsum]
  change (UInt32.ofNat ⌊((now.toNat + T.letterExtra : ℕ) : ℚ)⌋.toNat).toNat = _
  rw [Int.floor_natCast, Int.toNat_natCast, UInt32.toNat_ofNat', Nat.mod_eq_of_lt hroom]

theorem moves_letterEnd {last : ℕ} {text : List (Token Element)} (h : Plays T k (.choosing last [] text))
    (hroom : Room T now.toNat) :
    ∃ k', Moves (.quiet now) k k' ∧ Plays T k' (.letterGap last (now.toNat + T.letterExtra) text) ∧
      keyChanges k' = keyChanges k ++ [] := by
  have hbit := playingBit_eq_zero h rfl
  have hplayed : k.winkeyerInterCharSpacePlayed = false := h.played
  have hupdate : stateUpdate (.quiet now) .winkeyer k =
      (.autospace, { k with paddles := .none, winkeyerInterCharSpacePlayed := true }) := by
    rw [stateUpdate, updateWinkeyer_quiet h]
    refine (if_pos hbit).trans (if_pos ?_)
    simp [hplayed]
  have hstate : k.currentState = some .winkeyer := h.state
  refine ⟨_, ⟨.winkeyer, .autospace, _, hstate, hupdate, by decide, rfl⟩, ?_⟩
  rw [switchTo_eq (k := { k with paddles := .none, winkeyerInterCharSpacePlayed := true }) hstate (by decide)]
  refine ⟨h.congr rfl rfl rfl ⟨rfl, rfl⟩ rfl rfl rfl ⟨h.times, ?_⟩, ?_⟩
  · exact toNat_autospace (h.lengths.congr rfl) hroom.letterExtra
  · rw [List.append_nil]
    rfl

theorem ends_spaced {last : ℕ} (h : Plays T k (.spaced last [])) :
    Ends (.quiet now) k { k with paddles := .none } := by
  have hempty : k.winkeyerBuffer.empty = true := by
    rw [CircularBuffer.empty_iff_contents]
    exact List.map_eq_nil_iff.mp h.text
  have hplayed : k.winkeyerInterCharSpacePlayed = true := h.played
  refine ⟨.winkeyer, h.state, ?_⟩
  rw [stateUpdate, updateWinkeyer_quiet h]
  refine (if_pos (playingBit_eq_zero h rfl)).trans ?_
  simp [hplayed, hempty]

theorem consumes (now : UInt32) {last : ℕ} {t : Token Element} {text : List (Token Element)}
    (h : Plays T k (.spaced last (t :: text))) :
    ∃ c, token c = t ∧ stateUpdate (.quiet now) .winkeyer k = consume c { k with paddles := .none } ∧
      isWinkeyerCommand c = false ∧ c ≠ '|'.toUInt8 ∧
      k.winkeyerBuffer.get.2.contents.map token = text ∧
      ∀ c ∈ k.winkeyerBuffer.get.2.contents, Sendable c := by
  have hempty : k.winkeyerBuffer.empty = false := by
    rw [Bool.eq_false_iff, ne_eq, CircularBuffer.empty_iff_contents]
    intro hnil
    have htext := h.text
    rw [hnil] at htext
    cases htext
  have hcontents := k.winkeyerBuffer.contents_cons hempty
  have htext := h.text
  have hsendable := h.sendable
  rw [hcontents] at htext hsendable
  obtain ⟨hhead, htail⟩ := List.cons.inj htext
  obtain ⟨hcommand, hbar⟩ := sendable_text (hsendable _ List.mem_cons_self)
  have hplayed : k.winkeyerInterCharSpacePlayed = true := h.played
  refine ⟨k.winkeyerBuffer.peek, hhead, ?_, hcommand, hbar, htail,
    fun c hc => hsendable c (List.mem_cons_of_mem _ hc)⟩
  rw [stateUpdate, updateWinkeyer_quiet h]
  refine (if_pos (playingBit_eq_zero h rfl)).trans ?_
  simp [hplayed, hempty, hcommand]

theorem moves_space {last : ℕ} {text : List (Token Element)} (h : Plays T k (.spaced last (none :: text)))
    (hlast : last ≤ now.toNat) (hroom : Room T now.toNat) :
    ∃ k', Moves (.quiet now) k k' ∧ Plays T k' (.wordGap (last + T.wordGap) text) ∧
      keyChanges k' = keyChanges k ++ [] := by
  obtain ⟨c, hc, hupdate, hcommand, hbar, htext, hsendable⟩ := consumes now h
  have hnone : getCharPattern c = none := Option.map_eq_none_iff.mp hc
  rw [consume_text hcommand] at hupdate
  simp only [hbar, if_false, hnone] at hupdate
  have hstate : k.currentState = some .winkeyer := h.state
  refine ⟨_, ⟨.winkeyer, .interWordSpace, _, hstate, hupdate, by decide, rfl⟩, ?_⟩
  rw [switchTo_eq (k := emit (.fetched c [])
    { k with paddles := .none, winkeyerBuffer := k.winkeyerBuffer.get.2 }) hstate (by decide)]
  refine ⟨⟨h.lengths.congr rfl, h.steady, hsendable, rfl, h.elements, h.played, htext, ?_⟩, ?_⟩
  · have hlater : last + T.wordGap < 2 ^ 32 := (Nat.add_le_add_right hlast _).trans_lt hroom.wordGap
    exact toNat_later (h.lengths.congr rfl).wordGap h.times hlater
  · rw [List.append_nil]
    rfl

theorem moves_letter {last : ℕ} {e : Element} {es : List Element} {text : List (Token Element)}
    (h : Plays T k (.spaced last (some (e, es) :: text))) (hroom : Room T now.toNat) :
    ∃ k', Moves (.quiet now) k k' ∧ Plays T k' (.down (now.toNat + T.length e) es text) ∧
      keyChanges k' = keyChanges k ++ [true] := by
  obtain ⟨c, hc, hupdate, hcommand, hbar, htext, hsendable⟩ := consumes now h
  obtain ⟨p, hp, hletter⟩ := Option.map_eq_some_iff.mp hc
  obtain ⟨hfirst, hrest⟩ := Prod.mk.inj hletter
  rw [consume_text hcommand] at hupdate
  simp only [hbar, if_false, hp] at hupdate
  refine ⟨_, ⟨.winkeyer, .sendElement, _, h.state, hupdate, by decide, rfl⟩, ?_⟩
  exact sends (h.lengths.congr rfl) h.steady hsendable h.state hfirst hrest rfl htext hroom

/-- What a pass of the keyer does where this is one of the sender. -/
def Follows (T : Timings Element) (now : UInt32) (k : Keyer ℚ) (s : Sender Element) :
    Option (Sender Element × List Bool) → Prop
  | none => ∃ k', Ends (.quiet now) k k' ∧ Plays T k' s ∧ keyChanges k' = keyChanges k
  | some (s', keys) => ∃ k', Moves (.quiet now) k k' ∧ Plays T k' s' ∧ keyChanges k' = keyChanges k ++ keys

/-- A pass of the keyer is one of the sender. -/
theorem pass_plays {s : Sender Element} (h : Plays T k s) (hpast : s.Past now.toNat)
    (hroom : Room T now.toNat) : Follows T now k s (s.pass T now.toNat) := by
  have hpolled {s : Sender Element} (h : Plays T k s) : Plays T { k with paddles := .none } s := by
    refine h.congr rfl rfl h.state ⟨rfl, rfl⟩ rfl h.played rfl ?_
    cases s <;> exact h.times
  cases s with
  | down due es text =>
      rw [Sender.pass]
      split
      · exact moves_down h ‹_› hroom
      · exact ⟨k, ends_down h ‹_›, h, rfl⟩
  | elementGap last due es text =>
      rw [Sender.pass]
      split
      · exact moves_elementGap h ‹_›
      · exact ⟨k, ends_elementGap h ‹_›, h, rfl⟩
  | choosing last es text =>
      cases es with
      | nil => exact moves_letterEnd h hroom
      | cons e es => exact moves_choosing h hroom
  | letterGap last due text =>
      rw [Sender.pass]
      split
      · exact moves_letterGap h ‹_›
      · exact ⟨k, ends_letterGap h ‹_›, h, rfl⟩
  | spaced last text =>
      cases text with
      | nil => exact ⟨_, ends_spaced h, hpolled h, rfl⟩
      | cons token text =>
          cases token with
          | none => exact moves_space h hpast hroom
          | some letter => exact moves_letter h hroom
  | wordGap due text =>
      rw [Sender.pass]
      split
      · exact moves_wordGap h ‹_›
      · exact ⟨_, ends_wordGap h ‹_›, hpolled h, rfl⟩

/-- The drain loop of the keyer is that of the sender. -/
theorem updateLoop_plays {s : Sender Element} (h : Plays T k s) (hpast : s.Past now.toNat)
    (hroom : Room T now.toNat) (n : ℕ) :
    Plays T (updateLoop (List.replicate n (.quiet now)) k) (s.drain T now.toNat n).1 ∧
      (s.drain T now.toNat n).1.Past now.toNat ∧
      keyChanges (updateLoop (List.replicate n (.quiet now)) k) =
        keyChanges k ++ (s.drain T now.toNat n).2 := by
  induction n generalizing k s with
  | zero => exact ⟨h, hpast, (List.append_nil _).symm⟩
  | succ n ih =>
      have hfollows := pass_plays h hpast hroom
      rw [List.replicate_succ, Sender.drain]
      cases hpass : s.pass T now.toNat with
      | none =>
          rw [hpass] at hfollows
          obtain ⟨k', hk, hplays, hkeys⟩ := hfollows
          rw [updateLoop_ends hk]
          exact ⟨hplays, hpast, hkeys.trans (List.append_nil _).symm⟩
      | some r =>
          obtain ⟨s', keys⟩ := r
          rw [hpass] at hfollows
          obtain ⟨k', hk, hplays, hkeys⟩ := hfollows
          obtain ⟨hrest, hpast', hchanges⟩ := ih hplays (Sender.past_pass hpass hpast)
          rw [updateLoop_moves hk]
          refine ⟨hrest, hpast', ?_⟩
          rw [hchanges, hkeys, List.append_assoc]

end

/-- The key changes of so many calls of update, one at each millisecond from t on. -/
def keyLog (t : ℕ) : ℕ → Keyer ℚ → List (ℕ × Bool)
  | 0, _ => []
  | n + 1, k =>
      let k' := update (fun _ => .quiet (UInt32.ofNat t)) k
      ((keyChanges k').drop (keyChanges k).length).map (fun key => (t, key)) ++ keyLog (t + 1) n k'

section

variable {T : Timings Element} {k : Keyer ℚ} {t n : ℕ}

theorem Room.mono {u : ℕ} (h : Room T u) (hle : t ≤ u) : Room T t where
  length e := (Nat.add_le_add_right hle _).trans_lt (h.length e)
  elementGap := (Nat.add_le_add_right hle _).trans_lt h.elementGap
  letterExtra := (Nat.add_le_add_right hle _).trans_lt h.letterExtra
  wordGap := (Nat.add_le_add_right hle _).trans_lt h.wordGap

theorem Room.toNat_ofNat (h : Room T t) : (UInt32.ofNat t).toNat = t := by
  have hlt := h.elementGap
  rw [UInt32.toNat_ofNat', Nat.mod_eq_of_lt (by omega)]

theorem update_quiet (a : Answers) (k : Keyer ℚ) :
    update (fun _ => a) k = updateLoop (List.replicate maxTransitionsPerTick a) k := by
  rw [update, List.ofFn_const]

theorem keyLog_tick {k' : Keyer ℚ} {keys : List Bool} {tl : List (ℕ × Bool)}
    (hupdate : update (fun _ => .quiet (UInt32.ofNat t)) k = k') (hkeys : keyChanges k' = keyChanges k ++ keys)
    (hrest : keyLog (t + 1) n k' = tl.filter fun x => x.1 < t + 1 + n) :
    keyLog t (n + 1) k =
      (keys.map (fun key => (t, key)) ++ tl).filter fun x => x.1 < t + (n + 1) := by
  have hdue : (keys.map fun key => (t, key)).filter (fun x => x.1 < t + (n + 1)) =
      keys.map fun key => (t, key) := by
    rw [List.filter_eq_self]
    intro x hx
    obtain ⟨key, -, rfl⟩ := List.mem_map.mp hx
    simp
  rw [keyLog, hupdate, hkeys, List.drop_left, hrest, List.filter_append, hdue, Nat.add_assoc, Nat.add_comm 1 n]

theorem keyLog_plays {s : Sender Element} (h : Plays T k s) (hpast : s.Past t) (hroom : Room T (t + n)) :
    keyLog t n k = (s.future T t).filter fun x => x.1 < t + n := by
  induction n generalizing t k s with
  | zero =>
      refine (List.filter_eq_nil_iff.mpr ?_).symm
      intro x hx
      have hle := Sender.le_future hx
      simpa using hle
  | succ n ih =>
      have hnow := hroom.mono (Nat.le_add_right t (n + 1))
      have hclock := hnow.toNat_ofNat
      rw [← hclock] at hpast hnow
      obtain ⟨hplays, hpast', hkeys⟩ := updateLoop_plays h hpast hnow maxTransitionsPerTick
      rw [← update_quiet, hclock] at hplays hkeys
      rw [hclock] at hpast'
      have hrank : s.rank T t < maxTransitionsPerTick := (Sender.rank_le t s).trans_lt (by decide)
      rw [Sender.future_drain hrank]
      exact keyLog_tick rfl hkeys (ih hplays (hpast'.mono (Nat.le_succ t)) (hroom.mono (by omega)))

/-- Idle with a text in the buffer, and between frames. -/
structure Queued (T : Timings Element) (k : Keyer ℚ) (text : List UInt8) : Prop where
  lengths : Lengths T { k with winkeyerEnabled := true }
  state : k.currentState = some .idle
  steady : (settings k).2 = (false, false, false)
  bit : k.playingBit = 0
  played : k.winkeyerInterCharSpacePlayed = true
  waiting : k.winkeyerWaitingForArguments = 0
  remaining : k.winkeyerRemainingBufferedArguments = 0
  capacity : k.winkeyerBuffer.maxSize = 160
  contents : k.winkeyerBuffer.contents = text

def sendText (text : List UInt8) (k : Keyer ℚ) : Keyer ℚ := text.foldl (fun k c => winkeyerData c k) k

theorem queued_data {text : List UInt8} (h : Queued T k text) (hlen : text.length < 160) {c : UInt8}
    (hc : Sendable c) : Queued T (winkeyerData c k) (text ++ [c]) := by
  have hcommand := (sendable_text hc).1
  have hfull : k.winkeyerBuffer.full = false := by
    rw [Bool.eq_false_iff]
    intro hfull
    have hsize : k.winkeyerBuffer.size = k.winkeyerBuffer.maxSize := if_pos hfull
    rw [← CircularBuffer.contents_length, h.contents, h.capacity] at hsize
    omega
  have hdata : winkeyerData c k =
      emit (.put c) { k with
        winkeyerBuffer := k.winkeyerBuffer.put c
        winkeyerRemainingBufferedArguments := 0 } := by
    simp [winkeyerData, h.waiting, h.remaining, hcommand, putBuffered, emit]
  rw [hdata]
  refine ⟨h.lengths.congr rfl, h.state, h.steady, h.bit, h.played, h.waiting, rfl, h.capacity, ?_⟩
  rw [← h.contents]
  exact k.winkeyerBuffer.contents_put c hfull

theorem queued_sendText {text : List UInt8} (htext : ∀ c ∈ text, Sendable c) {before : List UInt8}
    (h : Queued T k before) (hlen : (before ++ text).length ≤ 160) :
    Queued T (sendText text k) (before ++ text) := by
  induction text generalizing before k with
  | nil =>
      rw [List.append_nil]
      exact h
  | cons c text ih =>
      have hsplit : before ++ c :: text = before ++ [c] ++ text := by simp
      have hshort : before.length < 160 := by
        rw [List.length_append, List.length_cons] at hlen
        omega
      rw [hsplit] at hlen ⊢
      exact ih (fun d hd => htext d (List.mem_cons_of_mem _ hd))
        (queued_data h hshort (htext c List.mem_cons_self)) hlen

theorem moves_idle (now : UInt32) {text : List UInt8} (h : Queued T k text) (hne : text ≠ [])
    (htext : ∀ c ∈ text, Sendable c) :
    ∃ k', Moves (.quiet now) k k' ∧ Plays T k' (.spaced k.lastSendTime.toNat (text.map token)) ∧
      keyChanges k' = keyChanges k := by
  have hdit : k.ditBuffered = false := congrArg (fun p => p.1) h.steady
  have hdah : k.dahBuffered = false := congrArg (fun p => p.2.1) h.steady
  have hplaying : k.isPlaying = false := congrArg (fun p => p.2.2) h.steady
  have hempty : k.winkeyerBuffer.empty = false := by
    rw [Bool.eq_false_iff, ne_eq, CircularBuffer.empty_iff_contents, h.contents]
    exact hne
  have hupdate : stateUpdate (.quiet now) .idle k = (.winkeyer, { k with paddles := .none }) := by
    rw [stateUpdate, updateIdle, pollPaddles_quiet (Answers.quiet_released now) hdit hdah]
    simp [hdit, hdah, hempty]
  refine ⟨_, ⟨.idle, .winkeyer, _, h.state, hupdate, by decide, rfl⟩, ?_, ?_⟩
  · rw [switchTo_eq (k := { k with paddles := .none }) h.state (by decide)]
    refine ⟨h.lengths.congr rfl, ⟨rfl, h.steady⟩, ?_, rfl, ?_, h.played, ?_, rfl⟩
    · intro c hc
      exact htext c (h.contents ▸ hc)
    · change elementsOf k.playingData k.playingBit.toNat = []
      rw [h.bit]
      rfl
    · change k.winkeyerBuffer.contents.map token = _
      rw [h.contents]
      rfl
  · rw [switchTo_eq (k := { k with paddles := .none }) h.state (by decide)]
    rfl

end

theorem first_tick {T : Timings Element} {k : Keyer ℚ} {t : ℕ} {text : List UInt8} {e : Element}
    {es : List Element} {tokens : List (Token Element)} (h : Queued T k text)
    (htext : ∀ c ∈ text, Sendable c) (htokens : text.map token = some (e, es) :: tokens)
    (hroom : Room T t) :
    ∃ k' s keys, update (fun _ => .quiet (UInt32.ofNat t)) k = k' ∧ Plays T k' s ∧ s.Past t ∧
      keyChanges k' = keyChanges k ++ keys ∧
      timeline T t (text.map token) = keys.map (fun key => (t, key)) ++ s.future T (t + 1) := by
  have hne : text ≠ [] := by
    rintro rfl
    cases htokens
  have hclock := hroom.toNat_ofNat
  obtain ⟨k₁, hidle, hspaced, hkeys₁⟩ := moves_idle (UInt32.ofNat t) h hne htext
  rw [htokens] at hspaced ⊢
  rw [← hclock] at hroom
  obtain ⟨k₂, hletter, hdown, hkeys₂⟩ := moves_letter hspaced hroom
  obtain ⟨hplays, hpast, hkeys⟩ := updateLoop_plays hdown trivial hroom 14
  have hupdate : update (fun _ => .quiet (UInt32.ofNat t)) k =
      updateLoop (List.replicate 14 (.quiet (UInt32.ofNat t))) k₂ := by
    rw [update_quiet, show maxTransitionsPerTick = 14 + 1 + 1 from rfl, List.replicate_succ,
      updateLoop_moves hidle,
      List.replicate_succ, updateLoop_moves hletter]
  rw [hclock] at hplays hpast hkeys
  refine ⟨_, _, true :: (Sender.drain T t 14 (.down (t + T.length e) es tokens)).2, hupdate, hplays, hpast,
    ?_, ?_⟩
  · rw [hkeys, hkeys₂, hkeys₁, List.append_assoc]
    rfl
  · have hrank : (Sender.down (t + T.length e) es tokens).rank T t < 14 :=
      (Sender.rank_le t _).trans_lt (by decide)
    rw [timeline_letter, Sender.future_drain hrank]
    rfl

/-- Keying is exact to the tick: the key goes down and up at just the times that the lengths of the
elements and of the gaps between them add up to. -/
theorem keying_exact (T : Timings Element) (k : Keyer ℚ) (hk : Queued T k []) (text : List UInt8)
    (hlen : text.length ≤ 160) (htext : ∀ c ∈ text, Sendable c)
    (hfirst : ∃ c ∈ text.head?, (getCharPattern c).isSome) (t n : ℕ) (hroom : Room T (t + n)) :
    keyLog t n (sendText text k) = (timeline T t (text.map token)).filter fun x => x.1 < t + n := by
  obtain ⟨c, hc, hpattern⟩ := hfirst
  obtain ⟨rest, rfl⟩ : ∃ rest, text = c :: rest := ⟨text.tail, List.eq_cons_of_mem_head? hc⟩
  obtain ⟨p, hp⟩ := Option.isSome_iff_exists.mp hpattern
  have htokens : (c :: rest).map token =
      some (nextElement p.sentCharData p.sentCharBits, elementsOf p.sentCharData (p.sentCharBits - 1).toNat) ::
        rest.map token := by
    rw [List.map_cons, token, hp]
    rfl
  have hqueued := queued_sendText htext hk hlen
  rw [List.nil_append] at hqueued
  have hnow := hroom.mono (Nat.le_add_right t n)
  cases n with
  | zero =>
      refine (List.filter_eq_nil_iff.mpr ?_).symm
      intro x hx
      rw [htokens, timeline_letter, List.mem_cons] at hx
      rcases hx with rfl | hx
      · simp
      · have hle := Sender.le_future hx
        simpa using hle
  | succ n =>
      obtain ⟨k', s, keys, hupdate, hplays, hpast, hkeys, htimeline⟩ := first_tick hqueued htext htokens hnow
      rw [htimeline]
      exact keyLog_tick hupdate hkeys
        (keyLog_plays hplays (hpast.mono (Nat.le_succ t)) (hroom.mono (by omega)))

/-- The keyer as it starts, with a style by which PARIS counts 50 impulses: at 24 words per minute
every length is a whole number of milliseconds. -/
def fiftyImpulses : Keyer ℚ :=
  init (.quiet 0)
    { Keyer.zero with
      profile := { Profile.zero with
        style := { (CodeStyle.default : CodeStyle ℚ) with impulsesBetweenWords := 7 } } }

def fiftyMs : Timings Element where
  length e := if e = .dit then 50 else 150
  elementGap := 50
  letterExtra := 100
  wordGap := 350
  length_pos e := by cases e <;> decide
  wordGap_pos := by decide

theorem fiftyImpulses_lengths : Lengths fiftyMs { fiftyImpulses with winkeyerEnabled := true } where
  length e := by cases e <;> decide +kernel
  elementGap := by decide +kernel
  wordGap := by decide +kernel
  spaces := ⟨150, 50, by decide +kernel⟩

theorem fiftyImpulses_keying :
    keyLog 1000 1000 (sendText [0x41, 0x20, 0x45] fiftyImpulses) =
      [(1000, true), (1050, false), (1100, true), (1250, false), (1600, true), (1650, false)] := by
  have hqueued : Queued fiftyMs fiftyImpulses [] :=
    ⟨fiftyImpulses_lengths, rfl, rfl, rfl, rfl, rfl, rfl, rfl, rfl⟩
  have hroom : Room fiftyMs (1000 + 1000) :=
    ⟨fun e => by cases e <;> decide, by decide, by decide, by decide⟩
  have htext : ∀ c ∈ ([0x41, 0x20, 0x45] : List UInt8), Sendable c := by
    rw [List.forall_mem_cons, List.forall_mem_cons, List.forall_mem_singleton]
    decide
  refine (keying_exact fiftyMs fiftyImpulses hqueued [0x41, 0x20, 0x45] (by decide) htext
    ⟨0x41, rfl, by decide⟩ 1000 1000 hroom).trans ?_
  decide

end Cwsd.TickKeying

import Cwsd.KeyerTransmit
import Cwsd.MemorySlots
import Cwsd.MorseStream

namespace Cwsd.MemoryPlay

open KeyerState KeyerMachine KeyerFrame KeyerTrack KeyerPass CharPatterns WinkeyerData KeyLine Runs StringUtil
open KeyerTransmit (Action step isEntry entries_emit entries_aside entries_calm entries_switchTo
  entries_winkeyerData)
open MorseStream (Entry elements elements_pos entry)
open MemorySlots (bytes memoryAt_eq)

/-- What is heard of a state that was entered; play itself is between two of them. -/
def heardEntry : Event → Option Entry
  | .entered .play _ => none
  | e => entry e

def heard (trace : List Event) : List Entry := (trace.filterMap heardEntry).reverse

/-- The Morse of one character of a memory: what no pattern is known for is a word space. -/
def score (c : UInt8) : List Entry :=
  match getCharPattern c with
  | none => [(.interWordSpace, .none)]
  | some p => elements p.sentCharData p.sentCharBits.toNat ++ [(.autospace, .none)]

/-- The part of the keyer that playing a memory depends on. -/
structure Tape where
  state : Option StateType
  playing : Bool
  enabled : Bool
  slot : UInt8
  cells : List UInt8
  index : UInt16
  data : UInt16
  bit : UInt8
  played : Bool
  entered : List Event

def rest (t : Tape) : List Entry :=
  (if t.state = some .sendElement then [(.interElementSpace, .none)] else []) ++
    elements t.data t.bit.toNat ++ (if t.played then [] else [(.autospace, .none)]) ++
      (cString (t.cells.drop t.index.toNat)).flatMap score

/-- Everything one pass can do while a memory is played. -/
inductive Move (t t' : Tape) : Prop
  | stay (heq : t' = t)
  | route (st next : StateType) (hst : t.state = some st) (hne : st ≠ .play)
      (hnext : next = if st = .sendElement then .interElementSpace else .play) (sent : Element)
      (heq : t' = { t with state := some next, entered := .entered next sent :: t.entered })
  | space (hst : t.state = some .play) (hbit : t.bit = 0) (hplayed : t.played = false) (sent : Element)
      (heq : t' = { t with
        state := some .autospace
        played := true
        entered := .entered .autospace sent :: t.entered })
  | send (hst : t.state = some .play) (hbit : t.bit ≠ 0)
      (heq : t' = { t with
        state := some .sendElement
        bit := t.bit - 1
        entered := .entered .sendElement (nextElement t.data t.bit) :: t.entered })
  | finish (hst : t.state = some .play) (hbit : t.bit = 0) (hplayed : t.played = true)
      (hcell : t.cells.getD t.index.toNat 0 = 0) (sent : Element)
      (heq : t' = { t with
        state := some .idle
        playing := false
        index := t.index + 1
        entered := .entered .idle sent :: t.entered })
  | gap (hst : t.state = some .play) (hbit : t.bit = 0) (hplayed : t.played = true)
      (hcell : t.cells.getD t.index.toNat 0 ≠ 0) (hpat : getCharPattern (t.cells.getD t.index.toNat 0) = none)
      (sent : Element)
      (heq : t' = { t with
        state := some .interWordSpace
        index := t.index + 1
        entered := .entered .interWordSpace sent :: t.entered })
  | char (hst : t.state = some .play) (hbit : t.bit = 0) (hplayed : t.played = true)
      (hcell : t.cells.getD t.index.toNat 0 ≠ 0) (p : CharPattern)
      (hpat : getCharPattern (t.cells.getD t.index.toNat 0) = some p)
      (heq : t' = { t with
        state := some .sendElement
        index := t.index + 1
        data := p.sentCharData
        bit := p.sentCharBits - 1
        played := false
        entered := .entered .sendElement (nextElement p.sentCharData p.sentCharBits) :: t.entered })

def Played (st : StateType) : Prop :=
  st = .play ∨ st = .sendElement ∨ st = .interElementSpace ∨ st = .interWordSpace ∨ st = .autospace

structure Rolling (t : Tape) : Prop where
  playing : t.playing = true
  enabled : t.enabled = false
  state : ∃ st, t.state = some st ∧ Played st
  ends : 0 ∈ t.cells.drop t.index.toNat
  length : t.cells.length ≤ memorySlotSize

theorem heard_cons {e : Event} {x : Entry} (he : heardEntry e = some x) (trace : List Event) :
    heard (e :: trace) = heard trace ++ [x] := by
  simp [heard, he]

theorem heard_skip {e : Event} (he : heardEntry e = none) (trace : List Event) :
    heard (e :: trace) = heard trace := by
  simp [heard, he]

theorem text_drop {cells : List UInt8} {i : Nat} (hends : 0 ∈ cells.drop i) (hcell : cells.getD i 0 ≠ 0) :
    cString (cells.drop i) = cells.getD i 0 :: cString (cells.drop (i + 1)) ∧ 0 ∈ cells.drop (i + 1) := by
  have hpos := List.length_pos_of_mem hends
  rw [List.length_drop] at hpos
  have hi : i < cells.length := Nat.lt_of_sub_pos hpos
  rw [List.getD_eq_getElem cells 0 hi] at hcell ⊢
  rw [List.drop_eq_getElem_cons hi] at hends ⊢
  refine ⟨List.takeWhile_cons_of_pos (decide_eq_true hcell), ?_⟩
  rcases List.mem_cons.mp hends with heq | hmem
  · exact absurd heq.symm hcell
  · exact hmem

theorem text_end {cells : List UInt8} {i : Nat} (hends : 0 ∈ cells.drop i) (hcell : cells.getD i 0 = 0) :
    cString (cells.drop i) = [] := by
  have hpos := List.length_pos_of_mem hends
  rw [List.length_drop] at hpos
  have hi : i < cells.length := Nat.lt_of_sub_pos hpos
  rw [List.getD_eq_getElem cells 0 hi] at hcell
  rw [List.drop_eq_getElem_cons hi, hcell]
  rfl

theorem Rolling.index {t : Tape} (h : Rolling t) : (t.index + 1).toNat = t.index.toNat + 1 := by
  have hpos := List.length_pos_of_mem h.ends
  have hlength := h.length
  have hsize : memorySlotSize = 256 := rfl
  rw [List.length_drop] at hpos
  exact MemorySlots.toNat_add_one (by omega)

theorem Rolling.move {t t' : Tape} (h : Rolling t) (hm : Move t t') : t'.playing = false ∨ Rolling t' := by
  have hkeep {next : StateType} (hnext : Played next) : ∃ st, some next = some st ∧ Played st :=
    ⟨next, rfl, hnext⟩
  cases hm with
  | stay heq => exact .inr (heq ▸ h)
  | route st next hst hne hnext sent heq =>
      subst heq
      refine .inr ⟨h.playing, h.enabled, hkeep ?_, h.ends, h.length⟩
      rw [hnext]
      split
      · exact .inr (.inr (.inl rfl))
      · exact .inl rfl
  | space hst hbit hplayed sent heq =>
      subst heq
      exact .inr ⟨h.playing, h.enabled, hkeep (.inr (.inr (.inr (.inr rfl)))), h.ends, h.length⟩
  | send hst hbit heq =>
      subst heq
      exact .inr ⟨h.playing, h.enabled, hkeep (.inr (.inl rfl)), h.ends, h.length⟩
  | finish hst hbit hplayed hcell sent heq =>
      subst heq
      exact .inl rfl
  | gap hst hbit hplayed hcell hpat sent heq =>
      subst heq
      refine .inr ⟨h.playing, h.enabled, hkeep (.inr (.inr (.inr (.inl rfl)))), ?_, h.length⟩
      simp only [h.index]
      exact (text_drop h.ends hcell).2
  | char hst hbit hplayed hcell p hpat heq =>
      subst heq
      refine .inr ⟨h.playing, h.enabled, hkeep (.inr (.inl rfl)), ?_, h.length⟩
      simp only [h.index]
      exact (text_drop h.ends hcell).2

theorem score_char {c : UInt8} {p : CharPattern} (hpat : getCharPattern c = some p) :
    score c = (.sendElement, nextElement p.sentCharData p.sentCharBits) :: (.interElementSpace, .none) ::
      (elements p.sentCharData (p.sentCharBits - 1).toNat ++ [(.autospace, .none)]) := by
  have hbits : p.sentCharBits ≠ 0 := by
    rintro h0
    have h := getCharPattern_bits hpat
    simp [h0] at h
  simp only [score, hpat, elements_pos p.sentCharData hbits, List.cons_append]

theorem rest_ready {t : Tape} (hst : t.state = some .play) (hbit : t.bit = 0) (hplayed : t.played = true) :
    rest t = (cString (t.cells.drop t.index.toNat)).flatMap score := by
  simp [rest, hst, hbit, hplayed]

/-- Heard and still to be heard together are the whole score; the end of the text adds the idle state. -/
theorem rest_move {t t' : Tape} (h : Rolling t) (hm : Move t t') :
    ∃ new, heard t'.entered = heard t.entered ++ new ∧
      (t'.playing = true ∧ t'.slot = t.slot ∧ new ++ rest t' = rest t ∨
        t'.playing = false ∧ new = rest t ++ [(.idle, .none)]) := by
  cases hm with
  | stay heq =>
      subst heq
      exact ⟨[], (List.append_nil _).symm, .inl ⟨h.playing, rfl, rfl⟩⟩
  | route st next hst hne hnext sent heq =>
      subst heq
      by_cases hsend : st = .sendElement
      · rw [if_pos hsend] at hnext
        rw [hsend] at hst
        subst hnext
        refine ⟨[(.interElementSpace, .none)], heard_cons rfl _, .inl ⟨h.playing, rfl, ?_⟩⟩
        simp [rest, hst]
      · rw [if_neg hsend] at hnext
        subst hnext
        refine ⟨[], (heard_skip rfl _).trans (List.append_nil _).symm, .inl ⟨h.playing, rfl, ?_⟩⟩
        simp [rest, hst, hsend]
  | space hst hbit hplayed sent heq =>
      subst heq
      refine ⟨[(.autospace, .none)], heard_cons rfl _, .inl ⟨h.playing, rfl, ?_⟩⟩
      simp [rest, hst, hbit, hplayed]
  | send hst hbit heq =>
      subst heq
      refine ⟨[(.sendElement, nextElement t.data t.bit)], heard_cons rfl _, .inl ⟨h.playing, rfl, ?_⟩⟩
      simp [rest, hst, elements_pos t.data hbit]
  | finish hst hbit hplayed hcell sent heq =>
      subst heq
      refine ⟨[(.idle, .none)], heard_cons rfl _, .inr ⟨rfl, ?_⟩⟩
      rw [rest_ready hst hbit hplayed, text_end h.ends hcell]
      rfl
  | gap hst hbit hplayed hcell hpat sent heq =>
      subst heq
      refine ⟨[(.interWordSpace, .none)], heard_cons rfl _, .inl ⟨h.playing, rfl, ?_⟩⟩
      rw [rest_ready hst hbit hplayed, (text_drop h.ends hcell).1, List.flatMap_cons]
      simp only [rest, h.index, hbit, hplayed, score, hpat]
      simp
  | char hst hbit hplayed hcell p hpat heq =>
      subst heq
      refine ⟨[(.sendElement, nextElement p.sentCharData p.sentCharBits)], heard_cons rfl _,
        .inl ⟨h.playing, rfl, ?_⟩⟩
      rw [rest_ready hst hbit hplayed, (text_drop h.ends hcell).1, List.flatMap_cons, score_char hpat]
      simp [rest, h.index]

section

variable {F : Type}

def tape (k : Keyer F) : Tape :=
  { state := k.currentState, playing := k.isPlaying, enabled := k.winkeyerEnabled,
    slot := k.playingSlot, cells := bytes k k.playingSlot, index := k.playingCharIndex, data := k.playingData,
    bit := k.playingBit, played := k.playInterCharSpacePlayed, entered := KeyerTransmit.entries k }

theorem tape_emit {e : Event} (he : isEntry e = false) (k : Keyer F) : tape (emit e k) = tape k := by
  simp only [tape, entries_emit he]
  rfl

theorem tape_calm (k : Keyer F) : tape (calm k) = tape k := by
  simp only [tape, entries_calm]
  rfl

theorem tape_setMemory {slot : UInt8} {k : Keyer F} (hne : k.playingSlot ≠ slot) (content : List UInt8) :
    tape (setMemory slot content k) = tape k := by
  have hbytes : bytes (setMemory slot content k) k.playingSlot = bytes k k.playingSlot := by
    by_cases hslot : slot.toNat < memorySlots
    · exact MemorySlots.bytes_setMemory_ne hslot hne
    · rw [setMemory, if_neg hslot]
  obtain ⟨m, hm⟩ := setMemory_memory slot content k
  rw [hm] at hbytes ⊢
  have hcells : tape { k with memory := m } =
      { tape k with cells := bytes { k with memory := m } k.playingSlot } := rfl
  rw [hcells, hbytes]
  rfl

theorem tape_stopRecording {k : Keyer F} (hpos : 0 < k.recordingIndex.toNat)
    (hlt : k.recordingIndex.toNat < memorySlotSize) (hne : k.playingSlot ≠ k.recordingSlot) :
    tape (stopRecording k) = tape k := by
  have hbytes := MemorySlots.bytes_stopRecording_ne hpos hlt hne
  obtain ⟨m, hm⟩ := stopRecording_memory k
  rw [hm] at hbytes ⊢
  have hcells : tape { k with memory := m, isRecording := false } =
      { tape k with
        cells := bytes (emit .recordStopped { k with memory := m, isRecording := false }) k.playingSlot } :=
    rfl
  rw [tape_emit rfl, hcells, hbytes]
  rfl

theorem memoryAt_cell {k : Keyer F} (hr : Rolling (tape k)) :
    memoryAt k k.playingSlot k.playingCharIndex.toNat = (tape k).cells.getD (tape k).index.toNat 0 := by
  have hpos := List.length_pos_of_mem hr.ends
  have hlength := hr.length
  rw [List.length_drop] at hpos
  exact memoryAt_eq k k.playingSlot (Nat.lt_of_lt_of_le (Nat.lt_of_sub_pos hpos) hlength)

variable [SinglePrecision F]

theorem tape_switchTo (a : Answers) {st next : StateType} {k : Keyer F} (hst : k.currentState = some st)
    (hne : next ≠ st) (hw : next ≠ .winkeyer) :
    tape (switchTo a next k) = { tape k with
      state := some next, entered := .entered next k.sentElement :: (tape k).entered } := by
  rw [view_switchTo tape_calm a hst hne]
  cases next with
  | winkeyer => exact absurd rfl hw
  | _ => rfl

theorem tape_pass {a : Answers} {k k' : Keyer F} {st next : StateType} (hst : k.currentState = some st)
    (hu : stateUpdate a st k = (next, k')) (hst' : k'.currentState = some st) (hne : next ≠ st)
    (hw : next ≠ .winkeyer) :
    tape (updatePass a k) = { tape k' with
      state := some next, entered := .entered next k'.sentElement :: (tape k').entered } := by
  rw [pass_move hst hu hne]
  exact tape_switchTo a hst' hne hw

theorem timed_update {a : Answers} {k : Keyer F} (hr : Rolling (tape k)) {st : StateType} (hplayed : Played st)
    (hne : st ≠ .play) :
    ∃ k', tape k' = tape k ∧ (stateUpdate a st k = (st, k') ∨
      stateUpdate a st k = (if st = .sendElement then .interElementSpace else .play, k')) := by
  have hplaying : k.isPlaying = true := hr.playing
  have henabled : k.winkeyerEnabled = false := hr.enabled
  rcases hplayed with rfl | rfl | rfl | rfl | rfl
  · exact absurd rfl hne
  · have htape : tape (if k.timeToCheckPaddles ≤ a.nowMs then checkOppositePaddle a k else k) = tape k := by
      split
      · rw [checkOppositePaddle_eq]
        rfl
      · rfl
    refine ⟨_, htape, ?_⟩
    generalize hlatched : (if k.timeToCheckPaddles ≤ a.nowMs then checkOppositePaddle a k else k) = k₁
    simp only [stateUpdate, updateSendElement, hlatched, if_true]
    split
    · exact .inr rfl
    · exact .inl rfl
  · have htape : tape (checkOppositePaddle a k) = tape k := by
      rw [checkOppositePaddle_eq]
      rfl
    refine ⟨checkOppositePaddle a k, htape, ?_⟩
    have hplaying' : (checkOppositePaddle a k).isPlaying = true := (congrArg Tape.playing htape).trans hplaying
    have henabled' : (checkOppositePaddle a k).winkeyerEnabled = false :=
      (congrArg Tape.enabled htape).trans henabled
    simp only [stateUpdate, updateInterElementSpace, hplaying', henabled', Bool.false_eq_true, if_false,
      if_true]
    split
    · exact .inr rfl
    · exact .inl rfl
  · have htape : tape (pollPaddles a.polled k) = tape k := by
      rw [pollPaddles_eq]
      rfl
    generalize hpoll : pollPaddles a.polled k = k₁ at htape
    have henabled' : ¬ k₁.winkeyerEnabled = true := by
      rw [show k₁.winkeyerEnabled = false from (congrArg Tape.enabled htape).trans henabled]
      decide
    simp only [stateUpdate, updateInterWordSpace, hpoll]
    split
    · exact ⟨{ k₁ with lastSendTime := a.updateMs }, htape, .inr rfl⟩
    · exact ⟨k₁, htape, .inl rfl⟩
  · refine ⟨k, rfl, ?_⟩
    simp only [stateUpdate, updateAutospace, afterGap, hplaying, if_true]
    split
    · exact .inr rfl
    · exact .inl rfl

omit [SinglePrecision F] in
theorem updatePlay_end {k : Keyer F} (hbit : k.playingBit = 0) (hplayed : k.playInterCharSpacePlayed = true)
    (hc : memoryAt k k.playingSlot k.playingCharIndex.toNat = 0) :
    updatePlay k = (.idle, stopPlaying { k with playingCharIndex := k.playingCharIndex + 1 }) := by
  simp only [updatePlay, hbit, hplayed, hc, if_true, Bool.not_true, Bool.false_eq_true, if_false]

omit [SinglePrecision F] in
theorem updatePlay_gap {k : Keyer F} (hbit : k.playingBit = 0) (hplayed : k.playInterCharSpacePlayed = true)
    {c : UInt8} (hc : memoryAt k k.playingSlot k.playingCharIndex.toNat = c) (hne : c ≠ 0)
    (hpat : getCharPattern c = none) :
    updatePlay k = (.interWordSpace, { k with playingCharIndex := k.playingCharIndex + 1 }) := by
  simp only [updatePlay, hbit, hplayed, hc, hne, hpat, if_true, Bool.not_true, Bool.false_eq_true, if_false]

omit [SinglePrecision F] in
theorem updatePlay_char {k : Keyer F} (hbit : k.playingBit = 0) (hplayed : k.playInterCharSpacePlayed = true)
    {c : UInt8} (hc : memoryAt k k.playingSlot k.playingCharIndex.toNat = c) (hne : c ≠ 0) {p : CharPattern}
    (hpat : getCharPattern c = some p) :
    updatePlay k = sendPlayingBit { k with
      playingCharIndex := k.playingCharIndex + 1
      playingData := p.sentCharData
      playingBit := p.sentCharBits
      playInterCharSpacePlayed := false } := by
  simp only [updatePlay, hbit, hplayed, hc, hne, hpat, if_true, Bool.not_true, Bool.false_eq_true, if_false]

theorem play_moves {a : Answers} {k : Keyer F} (hr : Rolling (tape k)) (hst : k.currentState = some .play) :
    Move (tape k) (tape (updatePass a k)) := by
  by_cases hbit : k.playingBit = 0
  · cases hplayed : k.playInterCharSpacePlayed with
    | false =>
        have hu : stateUpdate a .play k = (.autospace, { k with playInterCharSpacePlayed := true }) := by
          simp only [stateUpdate, updatePlay, hbit, hplayed, if_true, Bool.not_false]
        refine .space hst hbit hplayed k.sentElement ?_
        rw [tape_pass hst hu hst (by decide) (by decide)]
        rfl
    | true =>
        have hread := memoryAt_cell hr
        by_cases hcell : (tape k).cells.getD (tape k).index.toNat 0 = 0
        · have hu : stateUpdate a .play k = _ := updatePlay_end hbit hplayed (hread.trans hcell)
          refine .finish hst hbit hplayed hcell k.sentElement ?_
          rw [tape_pass hst hu hst (by decide) (by decide)]
          rfl
        · cases hpat : getCharPattern ((tape k).cells.getD (tape k).index.toNat 0) with
          | none =>
              have hu : stateUpdate a .play k = _ := updatePlay_gap hbit hplayed hread hcell hpat
              refine .gap hst hbit hplayed hcell hpat k.sentElement ?_
              rw [tape_pass hst hu hst (by decide) (by decide)]
              rfl
          | some p =>
              have hu : stateUpdate a .play k = _ := updatePlay_char hbit hplayed hread hcell hpat
              refine .char hst hbit hplayed hcell p hpat ?_
              rw [tape_pass hst hu hst (by decide) (by decide)]
              rfl
  · have hu : stateUpdate a .play k = sendPlayingBit k := by
      simp only [stateUpdate, updatePlay, hbit, if_false]
    refine .send hst hbit ?_
    rw [tape_pass hst hu hst (by decide) (by decide)]
    rfl

/-- The inversion of one pass: the paddles are latched, and nothing else. -/
theorem pass_moves (a : Answers) {k : Keyer F} (hr : Rolling (tape k)) :
    Move (tape k) (tape (updatePass a k)) := by
  obtain ⟨st, hst, hplayed⟩ := hr.state
  by_cases hplay : st = .play
  · subst hplay
    exact play_moves hr hst
  · obtain ⟨k', htape, hu | hu⟩ := timed_update (a := a) hr hplayed hplay
    · exact .stay (by rw [pass_stay hst (by rw [hu]), hu, htape])
    · have hst' : k'.currentState = some st := (congrArg Tape.state htape).trans hst
      refine .route st _ hst hplay rfl k'.sentElement ?_
      rw [tape_pass hst hu hst' ?_ ?_, htape]
      · split
        · rintro rfl
          contradiction
        · exact fun h => hplay h.symm
      · split <;> decide

theorem stopped_stateUpdate (a : Answers) (st : StateType) {k : Keyer F} (hstopped : k.isPlaying = false) :
    (stateUpdate a st k).2.isPlaying = false := by
  have hpoll : (pollPaddles a.polled k).isPlaying = false := by
    rw [pollPaddles_eq]
    exact hstopped
  have hcheck : (checkOppositePaddle a k).isPlaying = false := by
    rw [checkOppositePaddle_eq]
    exact hstopped
  cases st with
  | keyDown | tune | autospace | halfDotGap => exact hstopped
  | idle =>
      simp only [stateUpdate, updateIdle]
      generalize pollPaddles a.polled k = k₁ at hpoll
      split
      · exact hpoll
      split
      · exact hpoll
      split
      · exact hpoll
      · have hdecode := congrArg Track.playing (track_idleDecode a k₁)
        exact (congrArg Track.playing (track_idleWordSpace a (idleDecode a k₁))).trans (hdecode.trans hpoll)
  | sendElement =>
      simp only [stateUpdate, updateSendElement]
      split
      · exact hcheck
      · exact hstopped
  | interElementSpace =>
      simp only [stateUpdate, updateInterElementSpace, hcheck]
      split
      · split
        · exact hcheck
        · rw [pollPaddles_eq]
          exact hcheck
      · exact hcheck
  | interWordSpace =>
      simp only [stateUpdate, updateInterWordSpace]
      split
      · exact hpoll
      · exact hpoll
  | play =>
      simp only [stateUpdate, updatePlay]
      split
      · split
        · exact hstopped
        split
        · rfl
        · split <;> exact hstopped
      · exact hstopped
  | winkeyer =>
      simp only [stateUpdate, updateWinkeyer]
      generalize pollPaddles a.polled k = k₁ at hpoll
      split
      · exact hpoll
      split
      · split
        · exact hpoll
        split
        · exact hpoll
        split
        · exact hpoll
        · simp only [consume]
          split
          · simp only [executeBuffered]
            split
            · exact hpoll
            · split <;> exact hpoll
          · split
            · exact hpoll
            · split <;> exact hpoll
      · exact hpoll

theorem isPlaying_switchTo (a : Answers) {st next : StateType} {k : Keyer F} (hst : k.currentState = some st) :
    (switchTo a next k).isPlaying = k.isPlaying := by
  by_cases hne : next = st
  · rw [hne, switchTo_self a hst]
  · have hcalm (k : Keyer F) : (calm k).isPlaying = k.isPlaying := rfl
    rw [view_switchTo hcalm a hst hne]
    cases next <;> rfl

theorem stopped_pass (a : Answers) {k : Keyer F} (hstopped : k.isPlaying = false) :
    (updatePass a k).isPlaying = false := by
  cases hst : k.currentState with
  | none =>
      rw [updatePass, hst]
      exact hstopped
  | some st =>
      have hstate := (aside_stateUpdate a st k).state.trans hst
      have hupdate := stopped_stateUpdate a st hstopped
      simp only [updatePass, hst]
      split
      · exact hupdate
      · exact (isPlaying_switchTo a hstate).trans hupdate

omit [SinglePrecision F] in
theorem heard_entries (k : Keyer F) : heard (KeyerTransmit.entries k) = heard k.trace := by
  rw [heard, KeyerTransmit.entries, List.filterMap_filter, heard]
  congr 1
  apply List.filterMap_congr
  intro e _
  cases e <;> rfl

theorem heard_pass (a : Answers) (k : Keyer F) : heard k.trace <+: heard (updatePass a k).trace := by
  cases hst : k.currentState with
  | none =>
      rw [updatePass, hst]
  | some st =>
      have haside := aside_stateUpdate a st k
      have hentries := entries_aside haside
      rw [← heard_entries k, ← heard_entries (updatePass a k), ← hentries]
      simp only [updatePass, hst]
      split
      · exact List.prefix_refl _
      · rename_i hne
        rw [entries_switchTo a (haside.state.trans hst) hne]
        simp only [heard, List.filterMap_cons]
        split
        · exact List.prefix_refl _
        · rw [List.reverse_cons]
          exact List.prefix_append _ _

/-- What is heard after the state at the start: a part of the score while the memory is played, and
afterwards all of it and the idle state. -/
structure Scored (slot : UInt8) (before whole : List Entry) (k : Keyer F) : Prop where
  out : ∃ seq, heard k.trace = before ++ seq ∧
    (Rolling (tape k) ∧ k.playingSlot = slot ∧ seq ++ rest (tape k) = whole ∨
      k.isPlaying = false ∧ whole ++ [(.idle, .none)] <+: seq)

variable {slot : UInt8} {before whole : List Entry}

theorem Scored.pass (a : Answers) {k : Keyer F} (h : Scored slot before whole k) :
    Scored slot before whole (updatePass a k) := by
  obtain ⟨seq, hseq, ⟨hroll, hslot, hwhole⟩ | ⟨hstopped, hdone⟩⟩ := h.out
  · have hm := pass_moves a hroll
    obtain ⟨new, hheard, hnew⟩ := rest_move hroll hm
    have hall : heard (updatePass a k).trace = before ++ (seq ++ new) := by
      rw [← List.append_assoc, ← hseq, ← heard_entries k, ← heard_entries (updatePass a k)]
      exact hheard
    refine ⟨seq ++ new, hall, ?_⟩
    rcases hnew with ⟨hplaying, hslot', hrest⟩ | ⟨hstopped, hrest⟩
    · refine .inl ⟨(hroll.move hm).resolve_left fun hstopped => ?_, hslot'.trans hslot, ?_⟩
      · rw [hstopped] at hplaying
        cases hplaying
      · rw [List.append_assoc, hrest, hwhole]
    · refine .inr ⟨hstopped, ?_⟩
      rw [hrest, ← List.append_assoc, hwhole]
  · obtain ⟨new, hnew⟩ := heard_pass a k
    refine ⟨seq ++ new, by rw [← hnew, hseq, List.append_assoc], .inr ⟨stopped_pass a hstopped, ?_⟩⟩
    exact hdone.trans (List.prefix_append _ _)

omit [SinglePrecision F] in
theorem Scored.aside {k k' : Keyer F} (h : Scored slot before whole k)
    (htape : k.isPlaying = true → k.playingSlot = slot → tape k' = tape k)
    (hheard : heard k'.trace = heard k.trace) (hplaying : k'.isPlaying = k.isPlaying) :
    Scored slot before whole k' := by
  obtain ⟨seq, hseq, ⟨hroll, hslot, hwhole⟩ | ⟨hstopped, hdone⟩⟩ := h.out
  · have hsame := htape hroll.playing hslot
    refine ⟨seq, hheard.trans hseq, .inl ⟨hsame ▸ hroll, (congrArg Tape.slot hsame).trans hslot, ?_⟩⟩
    rw [hsame]
    exact hwhole
  · exact ⟨seq, hheard.trans hseq, .inr ⟨hplaying.trans hstopped, hdone⟩⟩

/-- The calls during which the memory goes on playing: no other is started, it is not stopped, and nothing is
written to its slot. -/
def Undisturbed (slot : UInt8) (k : Keyer F) : Action → Prop
  | .data _ | .tick _ | .startRecording _ => True
  | .setMemory other _ => slot ≠ other
  | .stopRecording =>
      slot ≠ k.recordingSlot ∧ 0 < k.recordingIndex.toNat ∧ k.recordingIndex.toNat < memorySlotSize
  | .startPlaying _ _ | .stopPlaying => False

omit [SinglePrecision F] in
instance (slot : UInt8) (k : Keyer F) (act : Action) : Decidable (Undisturbed slot k act) :=
  match act with
  | .data _ | .tick _ | .startRecording _ => isTrue trivial
  | .setMemory _ _ => inferInstanceAs (Decidable (_ ≠ _))
  | .stopRecording => inferInstanceAs (Decidable (_ ∧ _ ∧ _))
  | .startPlaying _ _ | .stopPlaying => isFalse id

theorem Scored.step {k k' : Keyer F} {act : Action} (h : Scored slot before whole k)
    (hok : Undisturbed slot k act) (hs : step k act = some k') : Scored slot before whole k' := by
  cases act with
  | startPlaying a other => exact absurd hok id
  | stopPlaying => exact absurd hok id
  | data c =>
      cases hs
      have hentries := entries_winkeyerData c k
      have htape : tape (winkeyerData c k) = tape k := by
        refine winkeyerData_frame tape (fun _ _ _ _ _ _ => rfl) (fun _ _ _ _ => rfl) ?_ c k
        intro e k he
        refine tape_emit ?_ k
        cases e with
        | entered => cases he
        | _ => rfl
      refine h.aside (fun _ _ => htape) ?_ (congrArg Tape.playing htape)
      rw [← heard_entries, hentries, heard_entries]
  | tick hardware =>
      cases hs
      exact update_invariant (Scored slot before whole) hardware (fun i _ hk => hk.pass (hardware i)) h
  | startRecording other =>
      cases hs
      have htape : tape (startRecording other k) = tape k := tape_emit rfl _
      exact h.aside (fun _ _ => htape) rfl (congrArg Tape.playing htape)
  | stopRecording =>
      cases hs
      obtain ⟨hne, hpos, hlt⟩ := hok
      obtain ⟨m, hm⟩ := stopRecording_memory k
      have hplaying : (stopRecording k).isPlaying = k.isPlaying := by
        rw [hm]
        rfl
      refine h.aside (fun _ hslot => tape_stopRecording hpos hlt (hslot ▸ hne)) ?_ hplaying
      rw [hm]
      rfl
  | setMemory other content =>
      cases hs
      obtain ⟨m, hm⟩ := setMemory_memory other content k
      have hplaying : (setMemory other content k).isPlaying = k.isPlaying := by
        rw [hm]
      refine h.aside (fun _ hslot => tape_setMemory (fun heq => hok (hslot ▸ heq)) content) ?_ hplaying
      rw [hm]

/-- The Morse of a slot: the space that is still owed to a character sent before, and its text. -/
def slotScore (k : Keyer F) (slot : UInt8) : List Entry :=
  (if k.playInterCharSpacePlayed then [] else [(.autospace, .none)]) ++ (cString (bytes k slot)).flatMap score

theorem switchTo_play (a : Answers) (k : Keyer F) :
    ∃ entered, tape (switchTo a .play k) = { tape k with state := some .play, entered := entered } ∧
      heard entered = heard (tape k).entered := by
  cases hst : k.currentState with
  | none =>
      refine ⟨.entered .play k.sentElement :: (tape k).entered, ?_, heard_skip rfl _⟩
      rw [switchTo, hst]
      rfl
  | some st =>
      by_cases hne : StateType.play = st
      · subst hne
        refine ⟨(tape k).entered, ?_, rfl⟩
        rw [switchTo_self a hst, ← hst]
        rfl
      · exact ⟨_, tape_switchTo a hst hne (by decide), heard_skip rfl _⟩

theorem scored_startPlaying (a : Answers) {k : Keyer F} (hdisabled : k.winkeyerEnabled = false)
    (hends : 0 ∈ bytes k slot) : Scored slot (heard k.trace) (slotScore k slot) (startPlaying a slot k) := by
  obtain ⟨entered, hswitch, hheard⟩ := switchTo_play a
    { k with isPlaying := true, playingSlot := slot, playingCharIndex := 0, playingBit := 0 }
  have htape : tape (startPlaying a slot k) =
      { state := some .play, playing := true, enabled := false, slot := slot, cells := bytes k slot, index := 0,
        data := k.playingData, bit := 0, played := k.playInterCharSpacePlayed, entered := entered } := by
    rw [startPlaying, tape_emit rfl, hswitch, ← hdisabled]
    rfl
  have hheard : heard (startPlaying a slot k).trace = heard k.trace := by
    rw [← heard_entries, ← heard_entries k, show KeyerTransmit.entries (startPlaying a slot k) = entered from
      congrArg Tape.entered htape]
    exact hheard
  refine ⟨[], by rw [hheard, List.append_nil], .inl ⟨?_, congrArg Tape.slot htape, ?_⟩⟩
  · rw [htape]
    exact ⟨rfl, rfl, ⟨.play, rfl, .inl rfl⟩, hends, List.length_take_le _ _⟩
  · rw [htape]
    simp [rest, slotScore]

theorem scored_run (a : Answers) {k₀ k : Keyer F} (hdisabled : k₀.winkeyerEnabled = false)
    (hends : 0 ∈ bytes k₀ slot) {acts : List Action}
    (hrun : Run step (Undisturbed slot) (startPlaying a slot k₀) acts k) :
    Scored slot (heard k₀.trace) (slotScore k₀ slot) k :=
  hrun.invariant (Scored slot (heard k₀.trace) (slotScore k₀ slot)) (scored_startPlaying a hdisabled hends)
    fun _ _ _ hk hok hs => hk.step hok hs

omit [SinglePrecision F] in
theorem Scored.finished {k : Keyer F} (h : Scored slot before whole k) (hstopped : k.isPlaying = false) :
    ∃ seq, heard k.trace = before ++ seq ∧ whole ++ [(.idle, .none)] <+: seq := by
  obtain ⟨seq, hseq, ⟨hroll, -, -⟩ | ⟨-, hdone⟩⟩ := h.out
  · rw [show k.isPlaying = true from hroll.playing] at hstopped
    cases hstopped
  · exact ⟨seq, hseq, hdone⟩

/-- A memory is sent as it stands in its slot: whatever the paddles do and whatever bytes arrive, what is heard
since the start is the Morse of its text as far as it was played; and when the keyer no longer plays, it has
sent all of it and gone to idle. -/
theorem playback_sends_slot (a : Answers) (slot : UInt8) (k₀ : Keyer F) (hdisabled : k₀.winkeyerEnabled = false)
    (hends : 0 ∈ bytes k₀ slot) (acts : List Action) (k : Keyer F)
    (hrun : Run step (Undisturbed slot) (startPlaying a slot k₀) acts k) :
    ∃ seq, heard k.trace = heard k₀.trace ++ seq ∧ (k.isPlaying = true → seq <+: slotScore k₀ slot) ∧
      (k.isPlaying = false → slotScore k₀ slot ++ [(.idle, .none)] <+: seq) := by
  have hscored := scored_run a hdisabled hends hrun
  cases hplaying : k.isPlaying with
  | true =>
      obtain ⟨seq, hseq, ⟨-, -, hwhole⟩ | ⟨hstopped, -⟩⟩ := hscored.out
      · exact ⟨seq, hseq, fun _ => ⟨rest (tape k), hwhole⟩, fun h => by cases h⟩
      · rw [hplaying] at hstopped
        cases hstopped
  | false =>
      obtain ⟨seq, hseq, hdone⟩ := hscored.finished hplaying
      exact ⟨seq, hseq, fun h => absurd h Bool.false_ne_true, fun _ => hdone⟩

end

def playedUnderPaddles : List Action :=
  [.tick fun _ => { Answers.quiet 1000 with pressed := fun _ => true, polled := fun _ => true }, .data 0x0B] ++
    (List.range 9).map fun n => .tick fun _ => .quiet (UInt32.ofNat (1000 * (n + 2)))

def withText : Keyer ℚ := setMemory 2 (ascii "E A") (init (.quiet 0) Keyer.zero)

theorem playedUnderPaddles_sent : ∃ k : Keyer ℚ,
    k.isPlaying = false ∧ ∃ seq, heard k.trace = [(.idle, .none)] ++ seq ∧
      [(.sendElement, .dit), (.interElementSpace, .none), (.autospace, .none), (.interWordSpace, .none),
        (.sendElement, .dit), (.interElementSpace, .none), (.sendElement, .dah), (.interElementSpace, .none),
        (.autospace, .none), (.idle, .none)] <+: seq := by
  obtain ⟨k, hrun, hstopped⟩ := run_of_exec_map step (Undisturbed 2) (startPlaying (.quiet 0) 2 withText)
    playedUnderPaddles (fun k => k.isPlaying) false (by decide +kernel)
  obtain ⟨seq, hseq, -, hdone⟩ := playback_sends_slot (.quiet 0) 2 withText rfl (by decide +kernel)
    playedUnderPaddles k hrun
  have hscore : slotScore withText 2 ++ [(.idle, .none)] =
      [(.sendElement, .dit), (.interElementSpace, .none), (.autospace, .none), (.interWordSpace, .none),
        (.sendElement, .dit), (.interElementSpace, .none), (.sendElement, .dah), (.interElementSpace, .none),
        (.autospace, .none), (.idle, .none)] := by decide +kernel
  refine ⟨k, hstopped, seq, hseq, ?_⟩
  rw [← hscore]
  exact hdone hstopped

end Cwsd.MemoryPlay

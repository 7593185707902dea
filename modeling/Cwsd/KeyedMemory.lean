import Cwsd.LetterDecoding
import Cwsd.MemoryPlay

namespace Cwsd.KeyedMemory

open KeyerState KeyerMachine KeyerFrame KeyerTrack KeyerPass CharPatterns KeyLine Runs StringUtil PaddleKeying
    LetterDecoding
open KeyerTransmit (Action step)
open MemorySlots (Keeps Notes bytes withoutSpace keeps_addChar keeps_stopRecording note Fits)
open MemoryPlay (heard score slotScore Undisturbed scored_run)
open MorseStream (Entry entriesOf)

/-- What was keyed between two reports: the elements of a letter, or nothing for a word space. -/
abbrev Word := Option (List Element)

def letterOf : Word → UInt8
  | some group => decodeGroup group
  | none => ' '.toUInt8

def reportOf : Event → Option UInt8
  | .charSent c => some c
  | _ => none

def reported (trace : List Event) : List UInt8 := (trace.filterMap reportOf).reverse

/-- What is heard of a word when it is played back. -/
def played : Word → List Entry
  | some group => entriesOf group ++ [(.autospace, .none)]
  | none => [(.interWordSpace, .none)]

def trimmed (words : List Word) : List Word := if words.getLast? = some none then words.dropLast else words

def Known (words : List Word) : Prop := ∀ group, some group ∈ words → ∃ p ∈ charTable, patternElements p = group

/-- The part of the keyer that recording depends on. -/
structure Desk where
  memory : List UInt8
  recording : Bool
  slot : UInt8
  index : UInt16
  data : UInt8
  bits : UInt8
  keyed : List Element
  reported : List UInt8

theorem decodeChar_ne_zero (data bits : UInt8) : decodeChar data bits ≠ 0 := by
  have hall : ∀ p ∈ charTable, p.character ≠ 0 := by decide
  rw [decodeChar]
  split
  · exact hall _ (List.mem_of_find?_eq_some ‹_›)
  · decide

theorem letterOf_ne_zero (word : Word) : letterOf word ≠ 0 := by
  cases word with
  | none => decide
  | some group => exact decodeChar_ne_zero _ _

theorem letterOf_space {word : Word} : letterOf word = ' '.toUInt8 ↔ word = none := by
  cases word with
  | none => exact ⟨fun _ => rfl, fun _ => rfl⟩
  | some group => exact ⟨fun h => absurd h (decodeChar_ne_space _ _), fun h => by cases h⟩

theorem withoutSpace_letters (words : List Word) :
    withoutSpace (words.map letterOf) = (trimmed words).map letterOf := by
  have hlast : (words.map letterOf).getLast? = some ' '.toUInt8 ↔ words.getLast? = some none := by
    rw [List.getLast?_map, Option.map_eq_some_iff]
    constructor
    · rintro ⟨word, hword, hspace⟩
      rw [hword, letterOf_space.mp hspace]
    · exact fun h => ⟨none, h, rfl⟩
  rw [withoutSpace, trimmed]
  simp only [hlast]
  split
  · exact List.map_dropLast.symm
  · rfl

theorem trimmed_subset {words : List Word} {word : Word} (h : word ∈ trimmed words) : word ∈ words := by
  rw [trimmed] at h
  split at h
  · exact List.mem_of_mem_dropLast h
  · exact h

theorem score_known :
    ∀ p ∈ charTable, score (decodeGroup (patternElements p)) = played (some (patternElements p)) := by
  decide +kernel

theorem score_letters {words : List Word} (hknown : Known words) :
    (words.map letterOf).flatMap score = words.flatMap played := by
  rw [List.flatMap_map]
  apply List.flatMap_congr
  intro word hword
  cases word with
  | none => decide
  | some group =>
      obtain ⟨p, hp, rfl⟩ := hknown group hword
      exact score_known p hp

section

variable {F : Type}

def desk (k : Keyer F) : Desk :=
  { memory := k.memory, recording := k.isRecording, slot := k.recordingSlot, index := k.recordingIndex,
    data := k.sentCharData, bits := k.sentCharBits, keyed := keyed k.trace, reported := reported k.trace }

theorem desk_calm (k : Keyer F) : desk (calm k) = desk k := by
  have hkeyed : keyed (calm k).trace = keyed k.trace := by
    refine congrArg List.reverse (filterMap_filter_of_none (fun e he => ?_) k.trace)
    cases e <;> first | rfl | cases he
  have hreported : reported (calm k).trace = reported k.trace := by
    refine congrArg List.reverse (filterMap_filter_of_none (fun e he => ?_) k.trace)
    cases e <;> first | rfl | cases he
  simp only [desk, hkeyed, hreported]
  rfl

theorem keeps_congr {k k' : Keyer F} {w : Notes} {data bits : UInt8} {sent : List Element} {said : List UInt8}
    (hdesk : desk k' = { desk k with data := data, bits := bits, keyed := sent, reported := said })
    (h : Keeps k w) : Keeps k' w := by
  have hmemory : k'.memory = k.memory := congrArg Desk.memory hdesk
  have hrecording : k'.isRecording = k.isRecording := congrArg Desk.recording hdesk
  have hslot : k'.recordingSlot = k.recordingSlot := congrArg Desk.slot hdesk
  have hindex : k'.recordingIndex = k.recordingIndex := congrArg Desk.index hdesk
  have hbytes (slot : UInt8) : bytes k' slot = bytes k slot := by rw [bytes, hmemory, bytes]
  refine ⟨by rw [hmemory, h.length], by rw [hslot]; exact h.slot, ?_, ?_⟩
  · intro slot text hs htext
    rw [hbytes]
    exact h.texts slot text hs htext
  · rw [hrecording, hindex, hslot, hbytes]
    exact h.recorded

variable [SinglePrecision F]

theorem desk_switchTo (a : Answers) {st next : StateType} {k : Keyer F} (hst : k.currentState = some st)
    (hne : next ≠ st) (hnext : ByHand next) :
    desk (switchTo a next k) =
      if next = .sendElement then
        { desk k with
          data := shiftIn k.sentCharData k.sentElement
          bits := k.sentCharBits + 1
          keyed := keyed k.trace ++ [k.sentElement] }
      else desk k := by
  rw [view_switchTo desk_calm a hst hne]
  rcases hnext with rfl | rfl | rfl | rfl
  · rfl
  · rw [if_pos rfl, ← keyed_cons]
    rfl
  · rfl
  · rfl

/-- What was keyed since k₀ is what was reported, word by word, and the elements that still are in the decoder;
and while the recording goes on, it is the recording. -/
structure Reel (k₀ : Keyer F) (slot : UInt8) (k : Keyer F) (words : List Word)
    (pending : List Element) : Prop where
  keyed : keyed k.trace = keyed k₀.trace ++ ((words.filterMap id).flatten ++ pending)
  reported : reported k.trace = reported k₀.trace ++ words.map letterOf
  data : k.sentCharData = packed pending
  bits : k.sentCharBits = UInt8.ofNat pending.length
  recorded : k.isRecording = true → (k.recordingSlot = slot ∧ k.recordingIndex.toNat < memorySlotSize) ∧
    ∃ w, Keeps k w ∧ w.recorded = words.map letterOf

variable {k₀ k : Keyer F} {slot : UInt8} {words : List Word} {pending : List Element}

omit [SinglePrecision F] in
theorem reel_slot {k' : Keyer F} {data bits : UInt8} {sent : List Element} {said : List UInt8}
    (hdesk : desk k' = { desk k with data := data, bits := bits, keyed := sent, reported := said })
    (h : k.recordingSlot = slot ∧ k.recordingIndex.toNat < memorySlotSize) :
    k'.recordingSlot = slot ∧ k'.recordingIndex.toNat < memorySlotSize := by
  have hslot : k'.recordingSlot = k.recordingSlot := congrArg Desk.slot hdesk
  have hindex : k'.recordingIndex = k.recordingIndex := congrArg Desk.index hdesk
  rw [hslot, hindex]
  exact h

omit [SinglePrecision F] in
theorem Reel.congr {k' : Keyer F} (h : Reel k₀ slot k words pending) (hdesk : desk k' = desk k) :
    Reel k₀ slot k' words pending := by
  refine ⟨?_, ?_, ?_, ?_, ?_⟩
  · exact (congrArg Desk.keyed hdesk).trans h.keyed
  · exact (congrArg Desk.reported hdesk).trans h.reported
  · exact (congrArg Desk.data hdesk).trans h.data
  · exact (congrArg Desk.bits hdesk).trans h.bits
  · intro hon
    obtain ⟨hslot, w, hkeeps, hrecorded⟩ := h.recorded ((congrArg Desk.recording hdesk).symm.trans hon)
    exact ⟨reel_slot hdesk hslot, w, keeps_congr (by rw [hdesk]) hkeeps, hrecorded⟩

omit [SinglePrecision F] in
theorem recorded_addChar {c : UInt8} (hne : c ≠ 0) (hon : (addCharToRecordingMemory c k).isRecording = true)
    (hslot : k.recordingSlot = slot) {w : Notes} (hkeeps : Keeps k w) (hrecording : k.isRecording = true)
    (hrecorded : w.recorded = words.map letterOf) :
    ((addCharToRecordingMemory c k).recordingSlot = slot ∧
      (addCharToRecordingMemory c k).recordingIndex.toNat < memorySlotSize) ∧
        ∃ w, Keeps (addCharToRecordingMemory c k) w ∧ w.recorded = words.map letterOf ++ [c] := by
  have hsize : memorySlotSize = 256 := rfl
  by_cases hroom : k.recordingIndex.toNat < memorySlotSize - 1
  · have hfits : Fits k (.addChar c) := ⟨hrecording, hroom, hne⟩
    refine ⟨⟨?_, ?_⟩, note k (.addChar c) w, keeps_addChar hkeeps hfits, ?_⟩
    · rw [MemorySlots.addChar_eq hfits, MemorySlots.setMemoryAt_eq]
      exact hslot
    · rw [MemorySlots.addChar_eq hfits]
      dsimp only
      rw [MemorySlots.toNat_add_one (by omega)]
      omega
    · rw [← hrecorded]
      rfl
  · obtain ⟨hcount, -, hprefix⟩ := hkeeps.recorded hrecording
    have hle := hprefix.length_le
    rw [hcount, hkeeps.length_bytes hkeeps.slot] at hle
    have hnext := MemorySlots.toNat_add_one hle
    have hfull : ¬ (k.recordingIndex + 1).toNat < memorySlotSize := by omega
    rw [addCharToRecordingMemory, MemorySlots.setMemoryAt_eq] at hon
    dsimp only at hon
    rw [if_neg hfull] at hon
    obtain ⟨m, hm⟩ := stopRecording_memory
      { k with
        memory := k.memory.set (k.recordingSlot.toNat * memorySlotSize + k.recordingIndex.toNat) c
        recordingIndex := k.recordingIndex + 1 }
    rw [hm] at hon
    cases hon

omit [SinglePrecision F] in
theorem keyed_addChar (c : UInt8) (k : Keyer F) :
    keyed (addCharToRecordingMemory c k).trace = keyed k.trace ∧
      reported (addCharToRecordingMemory c k).trace = reported k.trace ∧
      (addCharToRecordingMemory c k).sentCharData = k.sentCharData ∧
      (addCharToRecordingMemory c k).sentCharBits = k.sentCharBits := by
  obtain ⟨m, recording, ended, heq, rfl | rfl⟩ := addChar_memory c k
  · rw [heq]
    exact ⟨rfl, rfl, rfl, rfl⟩
  · rw [heq]
    exact ⟨rfl, rfl, rfl, rfl⟩

omit [SinglePrecision F] in
theorem reel_report (word : Word) {pending' : List Element} (h : Reel k₀ slot k words pending)
    (hwords : (words.filterMap id).flatten ++ pending = ((words ++ [word]).filterMap id).flatten ++ pending')
    {k' : Keyer F}
    (hdesk : desk k' = { desk k with data := packed pending', bits := UInt8.ofNat pending'.length }) :
    Reel k₀ slot (idleReport (letterOf word) k') (words ++ [word]) pending' := by
  have hkeyed : keyed k'.trace = keyed k.trace := congrArg Desk.keyed hdesk
  have hreported : reported k'.trace = reported k.trace := congrArg Desk.reported hdesk
  have hdata : k'.sentCharData = packed pending' := congrArg Desk.data hdesk
  have hbits : k'.sentCharBits = UInt8.ofNat pending'.length := congrArg Desk.bits hdesk
  have hrecording : k'.isRecording = k.isRecording := congrArg Desk.recording hdesk
  have hsaid : reported (emit (.charSent (letterOf word)) k').trace = reported k.trace ++ [letterOf word] := by
    rw [← hreported]
    exact List.reverse_cons
  have hkeyed' : keyed (emit (.charSent (letterOf word)) k').trace =
      keyed k₀.trace ++ (((words ++ [word]).filterMap id).flatten ++ pending') := by
    rw [← hwords, ← h.keyed, ← hkeyed]
    rfl
  have hreported' : reported k.trace ++ [letterOf word] = reported k₀.trace ++ (words ++ [word]).map
    letterOf := by
    rw [h.reported, List.map_append, List.append_assoc]
    rfl
  have hsame : (emit (.charSent (letterOf word)) k').isRecording = k.isRecording := hrecording
  have hspoken : desk (emit (.charSent (letterOf word)) k') = { desk k with
      data := packed pending'
      bits := UInt8.ofNat pending'.length
      keyed := keyed (emit (.charSent (letterOf word)) k').trace
      reported := reported (emit (.charSent (letterOf word)) k').trace } := by
    have hemit : desk (emit (.charSent (letterOf word)) k') = { desk k' with
        keyed := keyed (emit (.charSent (letterOf word)) k').trace
        reported := reported (emit (.charSent (letterOf word)) k').trace } := rfl
    rw [hemit, hdesk]
  rw [idleReport]
  split
  · rename_i hon
    obtain ⟨hk, hr, hd, hb⟩ := keyed_addChar (letterOf word) (emit (.charSent (letterOf word)) k')
    refine ⟨hk.trans hkeyed', hr.trans (hsaid.trans hreported'), hd.trans hdata, hb.trans hbits, fun hon' => ?_⟩
    obtain ⟨hslot, w, hkeeps, hrecorded⟩ := h.recorded (hsame.symm.trans hon)
    rw [List.map_append]
    exact recorded_addChar (letterOf_ne_zero word) hon' (reel_slot hspoken hslot).1
      (keeps_congr hspoken hkeeps) hon hrecorded
  · rename_i hoff
    refine ⟨hkeyed', hsaid.trans hreported', hdata, hbits, fun hon => absurd hon hoff⟩

omit [SinglePrecision F] in
theorem reel_idleDecode (a : Answers) (h : Reel k₀ slot k words pending) :
    ∃ words pending, Reel k₀ slot (idleDecode a k) words pending := by
  simp only [idleDecode]
  split
  · have hletter : decodeChar k.sentCharData k.sentCharBits = letterOf (some pending) := by
      rw [h.data, h.bits]
      rfl
    rw [hletter]
    refine ⟨words ++ [some pending], [], reel_report (some pending) h ?_ rfl⟩
    rw [List.filterMap_append, List.flatten_append, List.append_nil]
    simp
  · exact ⟨words, pending, h⟩

omit [SinglePrecision F] in
theorem reel_idleWordSpace (a : Answers) (h : Reel k₀ slot k words pending) :
    ∃ words pending, Reel k₀ slot (idleWordSpace a k) words pending := by
  simp only [idleWordSpace]
  split
  · refine ⟨words ++ [none], pending, reel_report none h ?_ ?_⟩
    · rw [List.filterMap_append, List.flatten_append]
      simp
    · rw [← h.data, ← h.bits]
      rfl
  · exact ⟨words, pending, h⟩

theorem reel_switchTo (a : Answers) {st next : StateType} (hst : k.currentState = some st) (hne : next ≠ st)
    (hnext : ByHand next) (h : Reel k₀ slot k words pending) :
    ∃ words pending, Reel k₀ slot (switchTo a next k) words pending := by
  have hdesk := desk_switchTo a hst hne hnext
  split at hdesk
  · refine ⟨words, pending ++ [k.sentElement], ?_, ?_, ?_, ?_, fun hon => ?_⟩
    · refine (congrArg Desk.keyed hdesk).trans ?_
      dsimp only
      rw [h.keyed, List.append_assoc, List.append_assoc]
    · exact (congrArg Desk.reported hdesk).trans h.reported
    · rw [packed_append, ← h.data]
      exact congrArg Desk.data hdesk
    · rw [List.length_append, List.length_singleton, UInt8.ofNat_add, ← h.bits]
      exact congrArg Desk.bits hdesk
    · obtain ⟨hslot, w, hkeeps, hrecorded⟩ := h.recorded ((congrArg Desk.recording hdesk).symm.trans hon)
      exact ⟨reel_slot hdesk hslot, w, keeps_congr hdesk hkeeps, hrecorded⟩
  · exact ⟨words, pending, h.congr hdesk⟩

theorem reel_pass (a : Answers) (hh : Handling (hand k)) (h : Reel k₀ slot k words pending) :
    ∃ words pending, Reel k₀ slot (updatePass a k) words pending := by
  have hpolled : desk (pollPaddles a.polled k) = desk k := by
    rw [pollPaddles_eq]
    rfl
  cases handPass a hh with
  | rest k₁ hpoll hst hdit hdah heq =>
      rw [hpoll] at hpolled
      obtain ⟨words₂, pending₂, h₂⟩ := reel_idleDecode a (h.congr hpolled)
      rw [heq]
      exact reel_idleWordSpace a h₂
  | send k₁ hpoll hst hany heq =>
      rw [hpoll] at hpolled
      have hst₁ : k₁.currentState = some .idle := by
        rw [← hpoll, pollPaddles_eq]
        exact hst
      rw [heq]
      exact reel_switchTo a (k := { k₁ with sentElement := _ }) hst₁ (by decide) (.inr (.inl rfl))
        ((h.congr hpolled).congr rfl)
  | latch st next hst hidle k₁ hlatched hnext heq =>
      have hst₁ : k₁.currentState = some st := (congrArg Keyer.currentState hlatched.others).trans hst
      have hsame : desk k₁ = desk k := (congrArg desk hlatched.others).trans rfl
      have h₁ := h.congr hsame
      rw [heq]
      by_cases hne : next = st
      · rw [hne, switchTo_self a hst₁]
        exact ⟨words, pending, h₁⟩
      · refine reel_switchTo a hst₁ hne ?_ h₁
        rcases hnext with heq | ⟨-, rfl⟩ | rfl | rfl
        · exact absurd heq hne
        · exact .inr (.inr (.inl rfl))
        · exact .inr (.inr (.inr rfl))
        · exact .inl rfl

/-- The operator keys: one tick after the other, whatever the paddles do. -/
def keyTicks (ticks : List (Fin maxTransitionsPerTick → Answers)) (k : Keyer F) : Keyer F :=
  ticks.foldl (fun k hardware => update hardware k) k

theorem reel_ticks (ticks : List (Fin maxTransitionsPerTick → Answers)) (hh : Handling (hand k))
    (h : Reel k₀ slot k words pending) :
    Handling (hand (keyTicks ticks k)) ∧ ∃ words pending, Reel k₀ slot (keyTicks ticks k) words pending := by
  induction ticks generalizing k words pending with
  | nil => exact ⟨hh, words, pending, h⟩
  | cons hardware ticks ih =>
      obtain ⟨hh', words', pending', h'⟩ := update_invariant
        (fun k => Handling (hand k) ∧ ∃ words pending, Reel k₀ slot k words pending) hardware
        (fun i k hk => by
          obtain ⟨hh, words, pending, h⟩ := hk
          exact ⟨hh.move (pass_moves (hardware i) hh), reel_pass (hardware i) hh h⟩)
        ⟨hh, words, pending, h⟩
      exact ih hh' h'

omit [SinglePrecision F] in
theorem reel_startRecording (hlength : k₀.memory.length = memorySlots * memorySlotSize)
    (hslot : slot.toNat < memorySlots) (hdata : k₀.sentCharData = 0) (hbits : k₀.sentCharBits = 0) :
    Reel k₀ slot (startRecording slot k₀) [] [] := by
  have hindex : (0 : UInt16).toNat < memorySlotSize := by decide
  refine ⟨(List.append_nil _).symm, (List.append_nil _).symm, hdata, hbits, fun _ => ⟨⟨rfl, hindex⟩, ?_⟩⟩
  refine ⟨⟨[], fun _ => none⟩, ⟨hlength, hslot, ?_, fun _ => ⟨rfl, List.not_mem_nil, List.nil_prefix⟩⟩, rfl⟩
  intro _ _ _ h
  cases h

omit [SinglePrecision F] in
theorem text_stopRecording (h : Reel k₀ slot k words pending) (hon : k.isRecording = true)
    (hsome : 0 < k.recordingIndex.toNat) :
    0 ∈ bytes (stopRecording k) slot ∧ cString (bytes (stopRecording k) slot) = (trimmed words).map
      letterOf := by
  obtain ⟨⟨hslot, hlt⟩, w, hkeeps, hrecorded⟩ := h.recorded hon
  have hkept := keeps_stopRecording hkeeps ⟨hsome, hlt, .inl hon⟩
  have hnoted : (note k .stopRecording w).contents slot = some (withoutSpace w.recorded) := by
    rw [note, if_pos hon, hslot]
    exact Function.update_self ..
  have hholds := hkept.texts slot _ (hslot ▸ hkeeps.slot) hnoted
  refine ⟨?_, ?_⟩
  · obtain ⟨-, rest, hrest⟩ := hholds
    rw [hrest]
    exact List.mem_append_right _ List.mem_cons_self
  · have htext := hholds.takeWhile []
    rwa [List.append_nil, hrecorded, withoutSpace_letters] at htext

/-- What is keyed by hand while a recording goes on is what playing the slot sends: the same elements, letter by
letter, with the word spaces between them. -/
theorem recording_plays_back (hstart : Handling (hand k₀))
    (hlength : k₀.memory.length = memorySlots * memorySlotSize) (hslot : slot.toNat < memorySlots)
    (hdata : k₀.sentCharData = 0) (hbits : k₀.sentCharBits = 0)
    (ticks : List (Fin maxTransitionsPerTick → Answers)) {k₁ : Keyer F}
    (hticks : keyTicks ticks (startRecording slot k₀) = k₁) (hon : k₁.isRecording = true)
    (hsome : 0 < k₁.recordingIndex.toNat) (a : Answers) {acts : List Action} {k₂ : Keyer F}
    (hrun : Run step (Undisturbed slot) (startPlaying a slot (stopRecording k₁)) acts k₂)
    (hdone : k₂.isPlaying = false) :
    ∃ words pending seq, keyed k₁.trace = keyed k₀.trace ++ ((words.filterMap id).flatten ++ pending) ∧
      reported k₁.trace = reported k₀.trace ++ words.map letterOf ∧ heard k₂.trace = heard k₁.trace ++ seq ∧
      (Known words → (if k₁.playInterCharSpacePlayed then [] else [(.autospace, .none)]) ++
        (trimmed words).flatMap played ++ [(.idle, .none)] <+: seq) := by
  have hhand : Handling (hand (startRecording slot k₀)) := by
    rw [startRecording, hand_emit rfl]
    exact hstart
  obtain ⟨hh, words, pending, hreel⟩ := reel_ticks ticks hhand (reel_startRecording hlength hslot hdata hbits)
  rw [hticks] at hh hreel
  obtain ⟨hends, htext⟩ := text_stopRecording hreel hon hsome
  obtain ⟨m, hm⟩ := stopRecording_memory k₁
  have hdisabled : (stopRecording k₁).winkeyerEnabled = false := by
    rw [hm]
    exact hh.enabled
  obtain ⟨seq, hseq, hplayed⟩ := (scored_run a hdisabled hends hrun).finished hdone
  have hheard : heard (stopRecording k₁).trace = heard k₁.trace := by
    rw [hm]
    rfl
  refine ⟨words, pending, seq, hreel.keyed, hreel.reported, hheard ▸ hseq, fun hknown => ?_⟩
  have hscore : slotScore (stopRecording k₁) slot =
      (if k₁.playInterCharSpacePlayed then [] else [(.autospace, .none)]) ++
        (trimmed words).flatMap played := by
    rw [slotScore, htext, score_letters fun group hgroup => hknown group (trimmed_subset hgroup), hm]
    rfl
  rw [← hscore]
  exact hplayed

end

/-- A dit and a dah are keyed, and then nothing more until the letter and the word space are reported. -/
def keyedTicks : List (Fin maxTransitionsPerTick → Answers) :=
  [fun _ => { Answers.quiet 1000 with polled := fun side => decide (side = .left) },
    fun _ => { Answers.quiet 2000 with pressed := fun side => decide (side = .right) }] ++
    (List.range 6).map fun n _ => .quiet (UInt32.ofNat (1000 * (n + 3)))

def afterA : Keyer ℚ := keyTicks keyedTicks (startRecording 1 (init (.quiet 0) Keyer.zero))

def playTicks : List Action := (List.range 9).map fun n => .tick fun _ =>
    .quiet (UInt32.ofNat (1000 * (n + 10)))

theorem words_of_A {words : List Word} {pending : List Element} (hletters : ascii "A " = words.map letterOf)
    (hkeyed : [.dit, .dah] = (words.filterMap id).flatten ++ pending) : words = [some [.dit, .dah], none] := by
  obtain ⟨first, rest, rfl, hfirst, hrest⟩ := List.map_eq_cons_iff.mp hletters.symm
  obtain ⟨second, rest, rfl, hsecond, hnil⟩ := List.map_eq_cons_iff.mp hrest
  obtain rfl := List.map_eq_nil_iff.mp hnil
  obtain rfl := letterOf_space.mp hsecond
  cases first with
  | none => exact absurd hfirst (by decide)
  | some group =>
      have hgroup : group <+: [.dit, .dah] := ⟨pending, by simpa using hkeyed.symm⟩
      rw [List.prefix_iff_eq_take] at hgroup
      have hlength : group.length ≤ 2 := by
        rw [hgroup]
        exact List.length_take_le' _ _
      have hA : decodeGroup group = 'A'.toUInt8 := hfirst
      generalize group.length = n at hgroup hlength
      subst hgroup
      rcases n with _ | _ | _ | n
      · exact absurd hA (by decide)
      · exact absurd hA (by decide)
      · rfl
      · omega

theorem afterA_played : ∃ (k : Keyer ℚ) (seq : List Entry), reported afterA.trace = ascii "A " ∧
    heard k.trace = heard afterA.trace ++ seq ∧
      [(.sendElement, .dit), (.interElementSpace, .none), (.sendElement, .dah), (.interElementSpace, .none),
        (.autospace, .none), (.idle, .none)] <+: seq := by
  obtain ⟨k, hrun, hdone⟩ := run_of_exec_map step (Undisturbed 1)
    (startPlaying (.quiet 9000) 1 (stopRecording afterA))
    playTicks (fun k => k.isPlaying) false (by decide +kernel)
  have hafter : keyed afterA.trace = [.dit, .dah] ∧ reported afterA.trace = ascii "A " ∧
      afterA.playInterCharSpacePlayed = true ∧ afterA.isRecording = true ∧ 0 < afterA.recordingIndex.toNat := by
    decide +kernel
  obtain ⟨hkeyed, hreported, hplayed, hon, hsome⟩ := hafter
  have hticks : keyTicks keyedTicks (startRecording 1 (init (.quiet 0) Keyer.zero)) = afterA := rfl
  obtain ⟨words, pending, seq, hwords, hletters, hseq, hplay⟩ := recording_plays_back (handling_init (.quiet 0))
    (by decide +kernel) (by decide) rfl rfl keyedTicks hticks hon hsome (.quiet 9000) hrun hdone
  obtain rfl := words_of_A (hreported.symm.trans hletters) (hkeyed.symm.trans hwords)
  rw [hplayed] at hplay
  refine ⟨k, seq, hreported, hseq, hplay ?_⟩
  intro group hgroup
  have hgroup' : group = [.dit, .dah] := by simpa using hgroup
  exact ⟨⟨0b01, 2, 'A'.toUInt8⟩, by decide, hgroup'.symm⟩

end Cwsd.KeyedMemory

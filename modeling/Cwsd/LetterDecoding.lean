import Cwsd.PaddleKeying
import Mathlib.Data.List.Find

namespace Cwsd.LetterDecoding

open KeyerState KeyerMachine KeyerFrame KeyerTrack KeyerPass CharPatterns WinkeyerData KeyLine Runs
open KeyerTransmit (Action step isEntry Accounted accounted_init accounted_step noteKeying)

/-- What the decoder gets and gives: the elements that are sent, and the letters that are reported. -/
inductive Sound
  | element (e : Element)
  | letter (c : UInt8)
  deriving DecidableEq

def sound : Event → Option Sound
  | .entered .sendElement sent => some (.element sent)
  | .charSent c => if c = ' '.toUInt8 then none else some (.letter c)
  | _ => none

def sounds (trace : List Event) : List Sound := (trace.filterMap sound).reverse

def shiftIn (data : UInt8) (e : Element) : UInt8 := if e = .dit then data <<< 1 else data <<< 1 ||| 1

def packed (group : List Element) : UInt8 := group.foldl shiftIn 0

/-- What the decoder makes of a group of elements, with the width of its two registers. -/
def decodeGroup (group : List Element) : UInt8 := decodeChar (packed group) (UInt8.ofNat group.length)

def patternElements (p : CharPattern) : List Element := elementsOf p.sentCharData p.sentCharBits.toNat

/-- The letter that the elements spell: the first of the table that is keyed so, or a question mark. -/
def spelled (group : List Element) : UInt8 :=
  match charTable.find? fun p => patternElements p == group with
  | some p => p.character
  | none => '?'.toUInt8

def transcript (groups : List (List Element)) (pending : List Element) : List Sound :=
  groups.flatMap (fun g => g.map .element ++ [.letter (decodeGroup g)]) ++ pending.map .element

theorem packed_append (group : List Element) (e : Element) : packed (group ++ [e]) = shiftIn (packed group) e :=
  List.foldl_concat ..

theorem shiftIn_toNat {data : UInt8} (h : data.toNat < 128) (e : Element) :
    (shiftIn data e).toNat = 2 * data.toNat + if e = .dit then 0 else 1 := by
  have hdouble : (data <<< 1).toNat = 2 * data.toNat := by
    rw [UInt8.toNat_shiftLeft, UInt8.toNat_one, Nat.shiftLeft_eq, Nat.mod_eq_of_lt (by decide : 1 < 8),
      Nat.pow_one,
      Nat.mul_comm, Nat.mod_eq_of_lt (by omega)]
  have hlow := Nat.two_pow_add_eq_or_of_lt (i := 1) (b := 1) (by decide) data.toNat
  rw [Nat.pow_one] at hlow
  rw [shiftIn]
  split
  · rw [hdouble, Nat.add_zero]
  · rw [UInt8.toNat_or, hdouble, UInt8.toNat_one, hlow]

theorem packed_lt {group : List Element} (h : group.length ≤ 8) : (packed group).toNat < 2 ^ group.length := by
  induction group using List.reverseRecOn with
  | nil => decide
  | append_singleton group e ih =>
      rw [List.length_append, List.length_singleton] at h ⊢
      have hlt := ih (by omega)
      have hsmall : 2 ^ group.length ≤ 2 ^ 7 := Nat.pow_le_pow_right (by decide) (by omega)
      rw [packed_append, shiftIn_toNat (by omega), Nat.pow_succ]
      split <;> omega

theorem packed_inj {group other : List Element} (hgroup : ∀ e ∈ group, e ≠ .none)
    (hother : ∀ e ∈ other, e ≠ .none) (hlength : group.length = other.length) (hle : group.length ≤ 8)
    (heq : packed group = packed other) :
    group = other := by
  induction group using List.reverseRecOn generalizing other with
  | nil => exact (List.length_eq_zero_iff.mp hlength.symm).symm
  | append_singleton group e ih =>
      obtain ⟨other, e', rfl⟩ : ∃ init e', other = init ++ [e'] := by
        refine (List.eq_nil_or_concat' other).resolve_left ?_
        rintro rfl
        rw [List.length_append] at hlength
        cases hlength
      simp only [List.length_append, List.length_singleton] at hlength hle
      have hsmall {g : List Element} (hg : g.length ≤ 7) : (packed g).toNat < 128 :=
        Nat.lt_of_lt_of_le (packed_lt (by omega)) (Nat.pow_le_pow_right (by decide) hg)
      have hnum := congrArg UInt8.toNat heq
      rw [packed_append, packed_append, shiftIn_toNat (hsmall (by omega)),
        shiftIn_toNat (hsmall (by omega))] at hnum
      have hbit (e : Element) : (if e = .dit then 0 else 1) < 2 := by split <;> decide
      obtain ⟨hrest, hlow⟩ : (packed group).toNat = (packed other).toNat ∧
          (if e = .dit then 0 else 1) = if e' = .dit then 0 else 1 := by
        have := hbit e
        have := hbit e'
        omega
      have hlast : e = e' := by
        have he := hgroup e (by simp)
        have he' := hother e' (by simp)
        cases e <;> cases e' <;> simp at he he' hlow ⊢
      rw [hlast, ih (fun e he => hgroup e (by simp [he])) (fun e he => hother e (by simp [he])) (by omega)
        (by omega)
        (UInt8.toNat_inj.mp hrest)]

theorem table_fits : ∀ p ∈ charTable, p.sentCharBits.toNat ≤ 7 ∧
    p.sentCharData = (packed (patternElements p)).toUInt16 ∧
    (patternElements p).length = p.sentCharBits.toNat ∧ ∀ e ∈ patternElements p, e ≠ .none := by decide +kernel

/-- A group that the counter can count is decoded as the letter it spells. -/
theorem decodeGroup_spelled {group : List Element} (hgroup : ∀ e ∈ group, e ≠ .none)
    (hlt : group.length < 256) :
    decodeGroup group = spelled group := by
  have hcount : (UInt8.ofNat group.length).toNat = group.length := by
    rw [UInt8.toNat_ofNat']
    exact Nat.mod_eq_of_lt hlt
  rw [decodeGroup, decodeChar, spelled]
  congr 1
  apply List.find?_congr
  intro p hp
  obtain ⟨hbits, hdata, hlength, hne⟩ := table_fits p hp
  rw [Bool.eq_iff_iff, Bool.and_eq_true, beq_iff_eq, beq_iff_eq, beq_iff_eq]
  constructor
  · rintro ⟨hsame, hcounted⟩
    have hlen : (patternElements p).length = group.length := by rw [hlength, hcounted, hcount]
    refine packed_inj hne hgroup hlen (by omega) ?_
    rw [hdata] at hsame
    exact UInt8.toNat_inj.mp (congrArg UInt16.toNat hsame)
  · rintro rfl
    refine ⟨hdata, UInt8.toNat_inj.mp ?_⟩
    rw [hcount, hlength]

/-- The two registers of the decoder, and what went in and came out so far, newest first. -/
structure Scribe where
  data : UInt8
  bits : UInt8
  log : List Sound

def Scribe.sent (s : Scribe) (e : Element) : Scribe :=
  { data := shiftIn s.data e, bits := s.bits + 1, log := .element e :: s.log }

def Scribe.reported (s : Scribe) : Scribe :=
  { data := 0, bits := 0, log := .letter (decodeChar s.data s.bits) :: s.log }

/-- The registers hold the elements since the last report, and each report decodes those since the one before. -/
structure Written (s : Scribe) (groups : List (List Element)) (pending : List Element) : Prop where
  log : s.log.reverse = transcript groups pending
  data : s.data = packed pending
  bits : s.bits = UInt8.ofNat pending.length

theorem Written.sent {s : Scribe} {groups : List (List Element)} {pending : List Element}
    (h : Written s groups pending) (e : Element) : Written (s.sent e) groups (pending ++ [e]) := by
  refine ⟨?_, ?_, ?_⟩
  · rw [Scribe.sent, List.reverse_cons, h.log, transcript, transcript, List.map_append, List.append_assoc]
    rfl
  · rw [Scribe.sent, packed_append, h.data]
  · rw [Scribe.sent, h.bits, List.length_append, List.length_singleton, UInt8.ofNat_add]
    rfl

theorem Written.reported {s : Scribe} {groups : List (List Element)} {pending : List Element}
    (h : Written s groups pending) : Written s.reported (groups ++ [pending]) [] := by
  refine ⟨?_, rfl, rfl⟩
  rw [Scribe.reported, List.reverse_cons, h.log, h.data, h.bits, transcript, transcript, List.flatMap_append,
    List.append_assoc]
  simp [decodeGroup]

section

variable {F : Type}

def scribe (k : Keyer F) : Scribe := ⟨k.sentCharData, k.sentCharBits, k.trace.filterMap sound⟩

theorem scribe_emit {e : Event} (he : sound e = none) (k : Keyer F) : scribe (emit e k) = scribe k := by
  simp [scribe, emit, he]

theorem scribe_calm (k : Keyer F) : scribe (calm k) = scribe k := by
  have hlog : (calm k).trace.filterMap sound = k.trace.filterMap sound := by
    refine filterMap_filter_of_none (fun e he => ?_) k.trace
    cases e <;> first | rfl | cases he
  simp only [scribe, hlog]
  rfl

theorem scribe_resting (k : Keyer F) : scribe (resting k) = scribe k := by
  have hlog : (resting k).trace.filterMap sound = k.trace.filterMap sound := by
    refine filterMap_filter_of_none (fun e he => ?_) k.trace
    cases e <;> first | rfl | cases he
  simp only [scribe, hlog]
  rfl

theorem scribe_of_resting {k k' : Keyer F} (h : resting k' = resting k) : scribe k' = scribe k := by
  rw [← scribe_resting, h, scribe_resting]

theorem scribe_idleReport (c : UInt8) (k : Keyer F) :
    scribe (idleReport c k) = scribe (emit (.charSent c) k) := by
  obtain ⟨m, i, recording, ended, heq, rfl | rfl⟩ := idleReport_memory c k
  · rw [heq]
    rfl
  · rw [heq]
    rfl

theorem decodeChar_ne_space (data bits : UInt8) : decodeChar data bits ≠ ' '.toUInt8 := by
  have hall : ∀ p ∈ charTable, p.character ≠ ' '.toUInt8 := by decide
  rw [decodeChar]
  split
  · exact hall _ (List.mem_of_find?_eq_some ‹_›)
  · decide

theorem scribe_idleDecode (a : Answers) (k : Keyer F) :
    scribe (idleDecode a k) = scribe k ∨ 0 < k.sentCharBits ∧
      scribe (idleDecode a k) = (scribe k).reported := by
  simp only [idleDecode]
  split
  · rename_i hdue
    refine .inr ⟨hdue.1, ?_⟩
    rw [scribe_idleReport]
    have hletter := decodeChar_ne_space k.sentCharData k.sentCharBits
    simp [scribe, emit, sound, hletter, Scribe.reported]
  · exact .inl rfl

theorem scribe_idleWordSpace (a : Answers) (k : Keyer F) : scribe (idleWordSpace a k) = scribe k := by
  simp only [idleWordSpace]
  split
  · exact (scribe_idleReport _ _).trans (scribe_emit rfl _)
  · rfl

theorem scribe_updateIdle (a : Answers) (k : Keyer F) :
    scribe (updateIdle a k).2 = scribe k ∨
      (updateIdle a k).1 = .idle ∧ 0 < k.sentCharBits ∧ scribe (updateIdle a k).2 = (scribe k).reported := by
  rcases resting_updateIdle a k with hsame | heq
  · exact .inl (scribe_of_resting hsame)
  · have hpoll := scribe_of_resting (resting_pollPaddles a.polled k)
    have hbits : (pollPaddles a.polled k).sentCharBits = k.sentCharBits := congrArg Scribe.bits hpoll
    rw [heq, ← hpoll, ← hbits, scribe_idleWordSpace]
    exact (scribe_idleDecode a _).imp_right fun h => ⟨rfl, h⟩

variable [SinglePrecision F]

theorem scribe_switchTo (a : Answers) {st next : StateType} {k : Keyer F} (hst : k.currentState = some st)
    (hne : next ≠ st) :
    scribe (switchTo a next k) = if next = .sendElement then (scribe k).sent k.sentElement else scribe k := by
  rw [view_switchTo scribe_calm a hst hne]
  cases next <;> rfl

theorem scribe_pass (a : Answers) (k : Keyer F) :
    scribe (updatePass a k) = scribe k ∨ (∃ e, scribe (updatePass a k) = (scribe k).sent e) ∨
      0 < k.sentCharBits ∧ scribe (updatePass a k) = (scribe k).reported := by
  cases hst : k.currentState with
  | none =>
      left
      rw [updatePass, hst]
  | some st =>
      have hstate := (aside_stateUpdate a st k).state.trans hst
      have hmoved {k' : Keyer F} (next : StateType) (hstate' : k'.currentState = some st) (hne : next ≠ st)
          (hsame : scribe k' = scribe k) :
          scribe (switchTo a next k') = scribe k ∨ ∃ e, scribe (switchTo a next k') = (scribe k).sent e := by
        rw [scribe_switchTo a hstate' hne, hsame]
        split
        · exact .inr ⟨_, rfl⟩
        · exact .inl rfl
      have hreported : scribe (stateUpdate a st k).2 = scribe k ∨
          (stateUpdate a st k).1 = st ∧ 0 < k.sentCharBits ∧
            scribe (stateUpdate a st k).2 = (scribe k).reported := by
        by_cases hidle : st = .idle
        · subst hidle
          exact scribe_updateIdle a k
        · exact .inl (scribe_of_resting (resting_stateUpdate a hidle k))
      simp only [updatePass, hst]
      split
      · exact hreported.imp_right fun h => .inr h.2
      · rename_i hne
        rcases hreported with hsame | hstay
        · exact (hmoved _ hstate hne hsame).imp_right .inl
        · exact absurd hstay.1 hne

/-- Elements that were sent and not reported yet are in the registers; no report is empty. -/
def Transcribed (k : Keyer F) : Prop :=
  ∃ groups pending, Written (scribe k) groups pending ∧ ∀ g ∈ groups, g ≠ []

theorem transcribed_pass (a : Answers) {k : Keyer F} (h : Transcribed k) : Transcribed (updatePass a k) := by
  obtain ⟨groups, pending, hwritten, hgroups⟩ := h
  rcases scribe_pass a k with hsame | ⟨e, hsent⟩ | ⟨hbits, hreported⟩
  · exact ⟨groups, pending, hsame ▸ hwritten, hgroups⟩
  · exact ⟨groups, pending ++ [e], hsent ▸ hwritten.sent e, hgroups⟩
  · refine ⟨groups ++ [pending], [], hreported ▸ hwritten.reported, fun g hg => ?_⟩
    rcases List.mem_append.mp hg with hold | hnew
    · exact hgroups g hold
    · rw [List.mem_singleton.mp hnew]
      rintro rfl
      have hzero : k.sentCharBits = 0 := hwritten.bits
      rw [hzero] at hbits
      cases hbits

theorem transcribed_step {k k' : Keyer F} {act : Action} (hstarted : ∃ st, k.currentState = some st)
    (h : Transcribed k) (hs : step k act = some k') : Transcribed k' := by
  have haside {k' : Keyer F} (hsame : scribe k' = scribe k) : Transcribed k' := by
    rw [Transcribed, hsame]
    exact h
  cases act with
  | tick hardware =>
      cases hs
      exact update_invariant Transcribed hardware (fun i _ hk => transcribed_pass (hardware i) hk) h
  | data c =>
      cases hs
      refine haside (winkeyerData_frame scribe (fun _ _ _ _ _ _ => rfl) (fun _ _ _ _ => rfl) ?_ c k)
      intro e k he
      refine scribe_emit ?_ k
      cases e with
      | entered | charSent => cases he
      | _ => rfl
  | startPlaying a slot =>
      cases hs
      obtain ⟨st, hst⟩ := hstarted
      have hswitch {k' : Keyer F} (hst' : k'.currentState = some st) :
        scribe (switchTo a .play k') = scribe k' := by
        by_cases hne : StateType.play = st
        · rw [hne, switchTo_self a hst']
        · exact (scribe_switchTo a hst' hne).trans (if_neg (by decide))
      exact haside ((scribe_emit rfl _).trans (hswitch hst))
  | stopPlaying =>
      cases hs
      exact haside (scribe_emit rfl _)
  | startRecording slot =>
      cases hs
      exact haside (scribe_emit rfl _)
  | stopRecording =>
      cases hs
      obtain ⟨m, hm⟩ := stopRecording_memory k
      refine haside ?_
      rw [hm]
      exact scribe_emit rfl _
  | setMemory slot content =>
      cases hs
      obtain ⟨m, hm⟩ := setMemory_memory slot content k
      refine haside ?_
      rw [hm]
      rfl

theorem transcribed_init (a : Answers) : Transcribed (init a (Keyer.zero : Keyer F)) := by
  have hscribe : scribe (init a (Keyer.zero : Keyer F)) = ⟨0, 0, []⟩ := rfl
  exact ⟨[], [], hscribe ▸ ⟨rfl, rfl, rfl⟩, fun g hg => absurd hg List.not_mem_nil⟩

omit [SinglePrecision F] in
theorem element_entered {k : Keyer F} {e : Element} (he : .element e ∈ sounds k.trace) :
    .entered .sendElement e ∈ KeyerTransmit.entries k := by
  obtain ⟨event, hmem, hsound⟩ := List.mem_filterMap.mp (List.mem_reverse.mp he)
  refine List.mem_filter.mpr ?_
  cases event with
  | entered next sent =>
      cases next with
      | sendElement =>
          cases hsound
          exact ⟨hmem, rfl⟩
      | _ => cases hsound
  | charSent c =>
      rw [sound] at hsound
      split at hsound <;> cases hsound
  | _ => cases hsound

/-- The letters that are reported are those that were sent: in every run the elements fall into groups, each
followed by the letter it spells, and what is not reported yet. -/
theorem reports_spell (a : Answers) (acts : List Action) (k : Keyer F)
    (h : Run step (fun _ _ => True) (init a Keyer.zero) acts k) :
    ∃ groups pending, sounds k.trace = transcript groups pending ∧
      ∀ g ∈ groups, g ≠ [] ∧ (g.length < 256 → decodeGroup g = spelled g) := by
  obtain ⟨⟨groups, pending, hwritten, hgroups⟩, keying, haccounted⟩ :=
    h.invariant (fun k => Transcribed k ∧ ∃ keying, Accounted k keying)
      ⟨transcribed_init a, none, accounted_init a⟩ fun k act k' hk _ hs => by
        obtain ⟨hk, keying, haccounted⟩ := hk
        exact ⟨transcribed_step haccounted.started hk hs, _, accounted_step haccounted hs⟩
  have hlog : sounds k.trace = transcript groups pending := hwritten.log
  refine ⟨groups, pending, hlog, fun g hg => ⟨hgroups g hg, decodeGroup_spelled fun e he => ?_⟩⟩
  have hmem : Sound.element e ∈ sounds k.trace := by
    rw [hlog, transcript]
    refine List.mem_append_left _ (List.mem_flatMap.mpr ⟨g, hg, List.mem_append_left _ ?_⟩)
    exact List.mem_map_of_mem he
  exact haccounted.chosen e (element_entered hmem)

end

def keyedA : List Action :=
  [.tick fun _ => { Answers.quiet 1000 with polled := fun side => decide (side = .left) },
    .tick fun _ => { Answers.quiet 2000 with pressed := fun side => decide (side = .right) }] ++
    (List.range 6).map fun n => .tick fun _ => .quiet (UInt32.ofNat (1000 * (n + 3)))

theorem keyedA_reported : ∃ (k : Keyer ℚ) (groups : List (List Element)) (pending : List Element),
    sounds k.trace = [.element .dit, .element .dah, .letter 'A'.toUInt8] ∧
      sounds k.trace = transcript groups pending ∧
      ∀ g ∈ groups, g ≠ [] ∧ (g.length < 256 → decodeGroup g = spelled g) := by
  obtain ⟨k, hrun, hsounds⟩ := run_of_exec_map step (fun _ _ => True) (init (.quiet 0) (Keyer.zero : Keyer ℚ))
    keyedA
    (fun k => sounds k.trace) [.element .dit, .element .dah, .letter 'A'.toUInt8] (by decide +kernel)
  obtain ⟨groups, pending, htranscript, hspell⟩ := reports_spell (.quiet 0) keyedA k hrun
  exact ⟨k, groups, pending, hsounds, htranscript, hspell⟩

end Cwsd.LetterDecoding

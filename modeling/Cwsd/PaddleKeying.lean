import Cwsd.KeyerTransmit
import Cwsd.MemorySlots

namespace Cwsd.PaddleKeying

open KeyerState KeyerMachine KeyerFrame KeyerTrack KeyerPass WinkeyerData KeyLine Runs
open KeyerTransmit (Action step isEntry entries_emit entries_calm)

def elementOf : Event → Option Element
  | .entered .sendElement sent => some sent
  | _ => none

def keyed (trace : List Event) : List Element := (trace.filterMap elementOf).reverse

/-- The part of the keyer that keying by hand depends on. -/
structure Hand where
  state : Option StateType
  playing : Bool
  enabled : Bool
  buffer : CircularBuffer UInt8
  dit : Bool
  dah : Bool
  sent : Element
  entered : List Event

/-- The element that two latches ask for after the one that was sent last. -/
def choice (sent : Element) (dit dah : Bool) : Element :=
  if dit && dah then if sent = .none then .dit else oppositeElement sent
  else if dit then .dit else .dah

def ByHand (st : StateType) : Prop := st = .idle ∨ st = .sendElement ∨ st = .interElementSpace ∨ st = .autospace

structure Handling (h : Hand) : Prop where
  playing : h.playing = false
  enabled : h.enabled = false
  empty : h.buffer.empty = true
  state : ∃ st, h.state = some st ∧ ByHand st
  sent : h.state = some .sendElement ∨ h.state = some .interElementSpace → h.sent ≠ .none

/-- Everything one pass can do while the operator keys. -/
inductive Move (a : Answers) (h h' : Hand) : Prop
  | rest (hst : h.state = some .idle) (hdit : (h.dit || a.polled .left) = false)
      (hdah : (h.dah || a.polled .right) = false) (sent : Element) (hsent : sent = h.sent ∨ sent = .none)
      (heq : h' = { h with sent := sent })
  | send (hst : h.state = some .idle) (dit dah : Bool) (hdit : dit = (h.dit || a.polled .left))
      (hdah : dah = (h.dah || a.polled .right)) (hany : (dit || dah) = true) (e : Element)
      (he : e = choice h.sent dit dah)
      (heq : h' = { h with
        state := some .sendElement
        dit := dit && decide (e ≠ .dit)
        dah := dah && decide (e ≠ .dah)
        sent := e
        entered := .entered .sendElement e :: h.entered })
  | latch (st next : StateType) (hst : h.state = some st) (hidle : st ≠ .idle) (dit dah : Bool)
      (hdit : h.dit = true → dit = true) (hdah : h.dah = true → dah = true)
      (hleft : dit = true → h.dit = true ∨ a.pressed .left = true ∨ a.polled .left = true)
      (hright : dah = true → h.dah = true ∨ a.pressed .right = true ∨ a.polled .right = true)
      (hnext : next = st ∨ st = .sendElement ∧ next = .interElementSpace ∨ next = .autospace ∨ next = .idle)
      (entered : List Event) (hentered : entered.filterMap elementOf = h.entered.filterMap elementOf)
      (heq : h' = { h with state := some next, dit := dit, dah := dah, entered := entered })

theorem choice_ne (sent : Element) (dit dah : Bool) : choice sent dit dah ≠ .none := by
  cases sent <;> cases dit <;> cases dah <;> decide

def follow (sent : Element) : Element := if sent = .none then .dit else oppositeElement sent

def alternate (e : Element) : Nat → List Element
  | 0 => []
  | n + 1 => e :: alternate (oppositeElement e) n

/-- What the latches still ask for when nothing more is pressed. -/
def owed (sent : Element) : Bool → Bool → List Element
  | false, false => []
  | true, false => [.dit]
  | false, true => [.dah]
  | true, true => [follow sent, oppositeElement (follow sent)]

/-- A latch that is set is served before long: at most one element, of the other kind, was sent meanwhile. -/
def Waiting (e : Element) (latch : Bool) (sent : Element) (es : List Element) : Prop :=
  e ∈ es.take 2 ∨ latch = true ∧ (es = [] ∨ es = [oppositeElement e] ∧ sent = oppositeElement e)

theorem choice_both (sent : Element) : choice sent true true = follow sent := rfl

theorem choice_over {e sent : Element} (he : e ≠ .none) {dit dah : Bool}
    (hlatch : (if e = .dit then dit else dah) = true) (hover : choice sent dit dah ≠ e) :
    choice sent dit dah = oppositeElement e ∧ sent ≠ oppositeElement e := by
  cases e with
  | none => exact absurd rfl he
  | dit => cases sent <;> cases dit <;> cases dah <;> simp [choice, oppositeElement] at hlatch hover ⊢
  | dah => cases sent <;> cases dit <;> cases dah <;> simp [choice, oppositeElement] at hlatch hover ⊢

theorem owed_choice {sent : Element} {dit dah : Bool} (hany : (dit || dah) = true) :
    owed sent dit dah = choice sent dit dah ::
      owed (choice sent dit dah) (dit && decide (choice sent dit dah ≠ .dit))
        (dah && decide (choice sent dit dah ≠ .dah)) := by
  cases sent <;> cases dit <;> cases dah <;> first | rfl | cases hany

theorem Waiting.kept {e sent : Element} {latch latch' : Bool} {es : List Element} (h : Waiting e latch sent es)
    (hlatch : latch = true → latch' = true) : Waiting e latch' sent es := h.imp_right fun h => ⟨hlatch h.1, h.2⟩

theorem Waiting.send {e sent : Element} (he : e ≠ .none) {latch dit dah : Bool} {es : List Element}
    (h : Waiting e latch sent es) (hlatch : latch = true → (if e = .dit then dit else dah) = true) :
    Waiting e ((if e = .dit then dit else dah) && decide (choice sent dit dah ≠ e)) (choice sent dit dah)
      (es ++ [choice sent dit dah]) := by
  rcases h with hserved | ⟨hset, hes⟩
  · left
    rw [List.take_append]
    exact List.mem_append_left _ hserved
  by_cases hchosen : choice sent dit dah = e
  · left
    rw [hchosen]
    rcases hes with rfl | ⟨rfl, -⟩
    · simp
    · simp
  · obtain ⟨hother, hsent⟩ := choice_over he (hlatch hset) hchosen
    rcases hes with rfl | ⟨-, hsame⟩
    · right
      rw [hlatch hset, hother]
      refine ⟨?_, .inr ⟨rfl, rfl⟩⟩
      rw [Bool.true_and, decide_eq_true_eq, ← hother]
      exact hchosen
    · exact absurd hsame hsent

theorem keyed_cons (e : Element) (entered : List Event) :
    keyed (.entered .sendElement e :: entered) = keyed entered ++ [e] := List.reverse_cons

theorem Handling.move {a : Answers} {h h' : Hand} (hh : Handling h) (hm : Move a h h') : Handling h' := by
  cases hm with
  | rest hst hdit hdah sent hsent heq =>
      subst heq
      refine ⟨hh.playing, hh.enabled, hh.empty, hh.state, ?_⟩
      dsimp only
      rw [hst]
      rintro (hbad | hbad) <;> cases hbad
  | send hst dit dah hdit hdah hany e he heq =>
      subst heq
      exact ⟨hh.playing, hh.enabled, hh.empty, ⟨.sendElement, rfl, .inr (.inl rfl)⟩,
        fun _ => he ▸ choice_ne h.sent dit dah⟩
  | latch st next hst hidle dit dah hdit hdah hleft hright hnext entered hentered heq =>
      subst heq
      obtain ⟨st', hst', hbyHand⟩ := hh.state
      obtain rfl : st = st' := Option.some.inj (hst.symm.trans hst')
      refine ⟨hh.playing, hh.enabled, hh.empty, ⟨next, rfl, ?_⟩, fun hsending => hh.sent ?_⟩
      · rcases hnext with rfl | ⟨-, rfl⟩ | rfl | rfl
        · exact hbyHand
        · exact .inr (.inr (.inl rfl))
        · exact .inr (.inr (.inr rfl))
        · exact .inl rfl
      · rw [hst]
        rcases hnext with rfl | ⟨rfl, -⟩ | rfl | rfl
        · exact hsending
        · exact .inl rfl
        · simp at hsending
        · simp at hsending

section

variable {F : Type}

def hand (k : Keyer F) : Hand :=
  { state := k.currentState, playing := k.isPlaying, enabled := k.winkeyerEnabled, buffer := k.winkeyerBuffer,
    dit := k.ditBuffered, dah := k.dahBuffered, sent := k.sentElement, entered := KeyerTransmit.entries k }

theorem hand_emit {e : Event} (he : isEntry e = false) (k : Keyer F) : hand (emit e k) = hand k := by
  simp only [hand, entries_emit he]
  rfl

theorem hand_calm (k : Keyer F) : hand (calm k) = hand k := by
  simp only [hand, entries_calm]
  rfl

theorem hand_idleReport (c : UInt8) (k : Keyer F) : hand (idleReport c k) = hand k := by
  obtain ⟨m, i, recording, ended, heq, rfl | rfl⟩ := idleReport_memory c k
  · rw [heq]
    rfl
  · rw [heq]
    rfl

theorem hand_idleDecode (a : Answers) (k : Keyer F) : hand (idleDecode a k) = hand k := by
  simp only [idleDecode]
  split
  · exact hand_idleReport _ _
  · rfl

theorem hand_idleWordSpace (a : Answers) (k : Keyer F) :
    ∃ sent, (sent = k.sentElement ∨ sent = .none) ∧
      hand (idleWordSpace a k) = { hand k with sent := sent } := by
  simp only [idleWordSpace]
  split
  · exact ⟨.none, .inr rfl, hand_idleReport _ _⟩
  · exact ⟨k.sentElement, .inl rfl, rfl⟩

variable [SinglePrecision F]

theorem hand_switchTo (a : Answers) {st next : StateType} {k : Keyer F} (hst : k.currentState = some st)
    (hne : next ≠ st) (hnext : ByHand next) (hsent : next = .sendElement → k.sentElement ≠ .none) :
    hand (switchTo a next k) =
      if next = .sendElement then
        { hand k with
          state := some .sendElement
          dit := k.ditBuffered && decide (k.sentElement ≠ .dit)
          dah := k.dahBuffered && decide (k.sentElement ≠ .dah)
          entered := .entered .sendElement k.sentElement :: (hand k).entered }
      else { hand k with state := some next, entered := .entered next k.sentElement :: (hand k).entered } := by
  rw [view_switchTo hand_calm a hst hne]
  rcases hnext with rfl | rfl | rfl | rfl
  · rfl
  · have hdah : decide (k.sentElement = .dit) = decide (k.sentElement ≠ .dah) := by
      cases hcase : k.sentElement with
      | none => exact absurd hcase (hsent rfl)
      | dit | dah => rfl
    rw [if_pos rfl, ← hdah]
    rfl
  · rfl
  · rfl

omit [SinglePrecision F] in
theorem updateIdle_send {a : Answers} {k k₁ : Keyer F} (hpoll : pollPaddles a.polled k = k₁)
    (hany : (k₁.ditBuffered || k₁.dahBuffered) = true) :
    updateIdle a k =
      (.sendElement, { k₁ with sentElement := choice k₁.sentElement k₁.ditBuffered k₁.dahBuffered }) := by
  simp only [updateIdle, hpoll]
  cases hdit : k₁.ditBuffered <;> cases hdah : k₁.dahBuffered <;> simp [choice, hdit, hdah] at hany ⊢

/-- What a state that is not idle hands over: it has latched what was pressed. -/
structure Latched (a : Answers) (k k' : Keyer F) : Prop where
  others : k' = { k with ditBuffered := k'.ditBuffered, dahBuffered := k'.dahBuffered, paddles := k'.paddles }
  dit : k.ditBuffered = true → k'.ditBuffered = true
  dah : k.dahBuffered = true → k'.dahBuffered = true
  left : k'.ditBuffered = true → k.ditBuffered = true ∨ a.pressed .left = true ∨ a.polled .left = true
  right : k'.dahBuffered = true → k.dahBuffered = true ∨ a.pressed .right = true ∨ a.polled .right = true

omit [SinglePrecision F] in
theorem Latched.refl (a : Answers) (k : Keyer F) : Latched a k k := ⟨rfl, id, id, .inl, .inl⟩

omit [SinglePrecision F] in
theorem Latched.trans {a : Answers} {k k' k'' : Keyer F} (h : Latched a k k') (h' : Latched a k' k'') :
    Latched a k k'' := by
  refine ⟨?_, fun hd => h'.dit (h.dit hd), fun hd => h'.dah (h.dah hd), ?_, ?_⟩
  · exact h'.others.trans (by rw [h.others])
  · exact fun hd => (h'.left hd).elim h.left .inr
  · exact fun hd => (h'.right hd).elim h.right .inr

omit [SinglePrecision F] in
theorem latched_checkOppositePaddle (a : Answers) (k : Keyer F) : Latched a k (checkOppositePaddle a k) := by
  rw [checkOppositePaddle_eq]
  refine ⟨rfl, ?_, ?_, ?_, ?_⟩ <;> simp only [Bool.or_eq_true, Bool.and_eq_true] <;> tauto

omit [SinglePrecision F] in
theorem latched_pollPaddles (a : Answers) (k : Keyer F) : Latched a k (pollPaddles a.polled k) := by
  rw [pollPaddles_eq]
  refine ⟨rfl, ?_, ?_, ?_, ?_⟩ <;> simp only [Bool.or_eq_true] <;> tauto

theorem other_update (a : Answers) {k : Keyer F} (hh : Handling (hand k)) {st : StateType} (hst : ByHand st)
    (hidle : st ≠ .idle) :
    ∃ next k', stateUpdate a st k = (next, k') ∧ Latched a k k' ∧
      (next = st ∨ st = .sendElement ∧ next = .interElementSpace ∨ next = .autospace ∨ next = .idle) := by
  have hplaying : k.isPlaying = false := hh.playing
  have henabled : k.winkeyerEnabled = false := hh.enabled
  have hcheck := latched_checkOppositePaddle a k
  rcases hst with rfl | rfl | rfl | rfl
  · exact absurd rfl hidle
  · have hlatched : Latched a k (if k.timeToCheckPaddles ≤ a.nowMs then checkOppositePaddle a k else k) := by
      split
      · exact hcheck
      · exact .refl a k
    generalize hchecked :
      (if k.timeToCheckPaddles ≤ a.nowMs then checkOppositePaddle a k else k) = k₁ at hlatched
    simp only [stateUpdate, updateSendElement, hchecked]
    refine ⟨_, _, rfl, hlatched, ?_⟩
    split
    · exact .inr (.inl ⟨trivial, rfl⟩)
    · exact .inl rfl
  · generalize hchecked : checkOppositePaddle a k = k₁ at hcheck
    have hplaying₁ : k₁.isPlaying = false := (congrArg Keyer.isPlaying hcheck.others).trans hplaying
    have henabled₁ : k₁.winkeyerEnabled = false := (congrArg Keyer.winkeyerEnabled hcheck.others).trans henabled
    simp only [stateUpdate, updateInterElementSpace, hchecked, hplaying₁, henabled₁, Bool.false_eq_true,
      if_false]
    split
    · refine ⟨_, _, rfl, hcheck.trans (latched_pollPaddles a k₁), ?_⟩
      split
      · exact .inr (.inr (.inr rfl))
      · exact .inr (.inr (.inl rfl))
    · exact ⟨_, _, rfl, hcheck, .inl rfl⟩
  · refine ⟨_, _, rfl, .refl a k, ?_⟩
    simp only [afterGap, hplaying, henabled, Bool.false_eq_true, if_false]
    split
    · exact .inr (.inr (.inr rfl))
    · exact .inl rfl

/-- Everything one pass can do to the keyer while the operator keys: idle rests or sends an element, and
the other states latch what is pressed before they wait or go on. -/
inductive HandPass (a : Answers) (k k' : Keyer F) : Prop
  | rest (k₁ : Keyer F) (hpoll : pollPaddles a.polled k = k₁) (hst : k.currentState = some .idle)
      (hdit : k₁.ditBuffered = false) (hdah : k₁.dahBuffered = false)
      (heq : k' = idleWordSpace a (idleDecode a k₁))
  | send (k₁ : Keyer F) (hpoll : pollPaddles a.polled k = k₁) (hst : k.currentState = some .idle)
      (hany : (k₁.ditBuffered || k₁.dahBuffered) = true)
      (heq : k' = switchTo a .sendElement
        { k₁ with sentElement := choice k₁.sentElement k₁.ditBuffered k₁.dahBuffered })
  | latch (st next : StateType) (hst : k.currentState = some st) (hidle : st ≠ .idle) (k₁ : Keyer F)
      (hlatched : Latched a k k₁)
      (hnext : next = st ∨ st = .sendElement ∧ next = .interElementSpace ∨ next = .autospace ∨ next = .idle)
      (heq : k' = switchTo a next k₁)

theorem handPass_idle (a : Answers) {k : Keyer F} (hh : Handling (hand k)) (hst : k.currentState = some .idle) :
    HandPass a k (updatePass a k) := by
  have hpolled := pollPaddles_eq a.polled k
  generalize hpoll : pollPaddles a.polled k = k₁ at hpolled
  by_cases hany : (k₁.ditBuffered || k₁.dahBuffered) = true
  · exact .send k₁ hpoll hst hany (pass_move hst (updateIdle_send hpoll hany) (by decide))
  · have hnone := Bool.or_eq_false_iff.mp (Bool.eq_false_iff.mpr hany)
    have henabled : k₁.winkeyerEnabled = false := (congrArg Keyer.winkeyerEnabled hpolled).trans hh.enabled
    have hempty : k₁.winkeyerBuffer.empty = true :=
      (congrArg (fun k => k.winkeyerBuffer.empty) hpolled).trans hh.empty
    have hu : stateUpdate a .idle k = (.idle, idleWordSpace a (idleDecode a k₁)) := by
      simp [stateUpdate, updateIdle, hpoll, hnone.1, hnone.2, henabled, hempty]
    refine .rest k₁ hpoll hst hnone.1 hnone.2 ?_
    rw [pass_stay hst (by rw [hu]), hu]

theorem handPass (a : Answers) {k : Keyer F} (hh : Handling (hand k)) : HandPass a k (updatePass a k) := by
  obtain ⟨st, hst, hbyHand⟩ := hh.state
  by_cases hidle : st = .idle
  · exact handPass_idle a hh (hidle ▸ hst)
  obtain ⟨next, k₁, hu, hlatched, hnext⟩ := other_update a hh hbyHand hidle
  refine .latch st next hst hidle k₁ hlatched hnext ?_
  by_cases hne : next = st
  · have hst₁ : k₁.currentState = some st := (congrArg Keyer.currentState hlatched.others).trans hst
    rw [pass_stay hst (by rw [hu, hne]), hu, hne, switchTo_self a hst₁]
  · exact pass_move hst hu hne

/-- What a pass by hand moves: elements are chosen in idle, and the other states latch what is pressed. -/
theorem pass_moves (a : Answers) {k : Keyer F} (hh : Handling (hand k)) :
    Move a (hand k) (hand (updatePass a k)) := by
  have hpolled : hand (pollPaddles a.polled k) = { hand k with
      dit := k.ditBuffered || a.polled .left, dah := k.dahBuffered || a.polled .right } := by
    rw [pollPaddles_eq]
    rfl
  cases handPass a hh with
  | rest k₁ hpoll hst hdit hdah heq =>
      rw [hpoll] at hpolled
      have hnodit : (k.ditBuffered || a.polled .left) = false := (congrArg Hand.dit hpolled).symm.trans hdit
      have hnodah : (k.dahBuffered || a.polled .right) = false := (congrArg Hand.dah hpolled).symm.trans hdah
      obtain ⟨sent, hsent, hword⟩ := hand_idleWordSpace a (idleDecode a k₁)
      have hrest : hand k₁ = hand k := by
        rw [hpolled, hnodit, hnodah]
        simp only [hand, (Bool.or_eq_false_iff.mp hnodit).1, (Bool.or_eq_false_iff.mp hnodah).1]
      have hdecode := (hand_idleDecode a k₁).trans hrest
      refine .rest hst hnodit hnodah sent (hsent.imp_left fun hsame => ?_) ?_
      · exact hsame.trans (congrArg Hand.sent hdecode)
      · rw [heq, hword, hdecode]
  | send k₁ hpoll hst hany heq =>
      rw [hpoll] at hpolled
      have hst₁ : k₁.currentState = some .idle := (congrArg Hand.state hpolled).trans hst
      have hsent : k₁.sentElement = k.sentElement := congrArg Hand.sent hpolled
      obtain ⟨e, he⟩ : ∃ e, choice k₁.sentElement k₁.ditBuffered k₁.dahBuffered = e := ⟨_, rfl⟩
      have hswitch : hand (switchTo a .sendElement { k₁ with sentElement := e }) = { hand k₁ with
          state := some .sendElement
          dit := k₁.ditBuffered && decide (e ≠ .dit)
          dah := k₁.dahBuffered && decide (e ≠ .dah)
          sent := e
          entered := .entered .sendElement e :: (hand k₁).entered } := by
        refine (hand_switchTo a (k := { k₁ with sentElement := e }) hst₁ (by decide) (.inr (.inl rfl)) ?_).trans
          (if_pos rfl)
        exact fun _ => he ▸ choice_ne _ _ _
      refine .send hst k₁.ditBuffered k₁.dahBuffered (congrArg Hand.dit hpolled) (congrArg Hand.dah hpolled) hany
        e ?_ ?_
      · rw [← he, hsent]
        rfl
      · rw [heq, he, hswitch, hpolled]
  | latch st next hst hidle k₁ hlatched hnext heq =>
      have hhand : hand k₁ = { hand k with dit := k₁.ditBuffered, dah := k₁.dahBuffered } :=
        congrArg hand hlatched.others
      have hst₁ : k₁.currentState = some st := (congrArg Hand.state hhand).trans hst
      by_cases hne : next = st
      · refine .latch st next hst hidle k₁.ditBuffered k₁.dahBuffered hlatched.dit hlatched.dah hlatched.left
          hlatched.right hnext (hand k).entered rfl ?_
        rw [heq, hne, switchTo_self a hst₁, hhand, ← hst]
        rfl
      · have hgap : next ≠ .sendElement ∧ ByHand next := by
          rcases hnext with heq | ⟨-, rfl⟩ | rfl | rfl
          · exact absurd heq hne
          · exact ⟨by decide, .inr (.inr (.inl rfl))⟩
          · exact ⟨by decide, .inr (.inr (.inr rfl))⟩
          · exact ⟨by decide, .inl rfl⟩
        refine .latch st next hst hidle k₁.ditBuffered k₁.dahBuffered hlatched.dit hlatched.dah hlatched.left
          hlatched.right hnext (.entered next k₁.sentElement :: (hand k).entered) ?_ ?_
        · rw [List.filterMap_cons]
          cases next with
          | sendElement => exact absurd rfl hgap.1
          | _ => rfl
        · rw [heq, hand_switchTo a hst₁ hne hgap.2 (fun hsend => absurd hsend hgap.1), if_neg hgap.1, hhand]

omit [SinglePrecision F] in
theorem keyed_entries (k : Keyer F) : keyed (KeyerTransmit.entries k) = keyed k.trace := by
  rw [keyed, KeyerTransmit.entries, List.filterMap_filter, keyed]
  congr 1
  apply List.filterMap_congr
  intro e _
  cases e <;> rfl

/-- The calls during which the operator keys, and what the hardware answers. -/
def Keys (answers : Answers → Prop) : Action → Prop
  | .tick hardware => ∀ i, answers (hardware i)
  | .startRecording _ | .stopRecording | .setMemory _ _ | .stopPlaying => True
  | .data _ | .startPlaying _ _ => False

instance (answers : Answers → Prop) [DecidablePred answers] (act : Action) : Decidable (Keys answers act) :=
  match act with
  | .tick hardware => inferInstanceAs (Decidable (∀ i, answers (hardware i)))
  | .startRecording _ | .stopRecording | .setMemory _ _ | .stopPlaying => isTrue trivial
  | .data _ | .startPlaying _ _ => isFalse id

instance (p : PaddleSide → Prop) [DecidablePred p] : Decidable (∀ side, p side) :=
  decidable_of_iff (p .left ∧ p .right)
    ⟨fun h side => by cases side <;> [exact h.1; exact h.2], fun h => ⟨h .left, h .right⟩⟩

instance : DecidablePred Answers.Released := fun a =>
  inferInstanceAs (Decidable (∀ side, a.pressed side = false ∧ a.polled side = false))

theorem keying_invariant {answers : Answers → Prop} {k₀ k : Keyer F} {acts : List Action}
    (hstart : Handling (hand k₀)) (hrun : Run step (fun _ act => Keys answers act) k₀ acts k)
    (inv : List Element → Hand → Prop) (hinv : inv [] (hand k₀))
    (hmove : ∀ a h h' es, answers a → Handling h → Move a h h' → inv es h →
      ∃ new, keyed h'.entered = keyed h.entered ++ new ∧ inv (es ++ new) h') :
    ∃ es, keyed k.trace = keyed k₀.trace ++ es ∧ inv es (hand k) := by
  have haside {k k' : Keyer F} (hsame : hand k' = hand k) :
      (Handling (hand k) ∧ ∃ es, keyed k.trace = keyed k₀.trace ++ es ∧ inv es (hand k)) →
        Handling (hand k') ∧ ∃ es, keyed k'.trace = keyed k₀.trace ++ es ∧ inv es (hand k') := by
    rw [hsame, ← keyed_entries k', ← keyed_entries k,
      show KeyerTransmit.entries k' = KeyerTransmit.entries k from
      congrArg Hand.entered hsame]
    exact id
  refine (hrun.invariant (fun k => Handling (hand k) ∧ ∃ es, keyed k.trace = keyed k₀.trace ++ es ∧
    inv es (hand k))
    ⟨hstart, [], (List.append_nil _).symm, hinv⟩ ?_).2
  intro k act k' hk hok hs
  cases act with
  | data c => exact absurd hok id
  | startPlaying a slot => exact absurd hok id
  | tick hardware =>
      cases hs
      refine update_invariant (fun k => Handling (hand k) ∧ ∃ es, keyed k.trace = keyed k₀.trace ++ es ∧
        inv es (hand k))
        hardware ?_ hk
      rintro i k ⟨hh, es, hes, hk⟩
      have hm := pass_moves (hardware i) hh
      obtain ⟨new, hnew, hk'⟩ := hmove _ _ _ es (hok i) hh hm hk
      refine ⟨hh.move hm, es ++ new, ?_, hk'⟩
      rw [← keyed_entries, ← List.append_assoc, ← hes, ← keyed_entries k]
      exact hnew
  | startRecording slot =>
      cases hs
      exact haside (hand_emit rfl _) hk
  | stopPlaying =>
      cases hs
      refine haside ?_ hk
      have hplaying : k.isPlaying = false := hk.1.playing
      rw [stopPlaying, hand_emit rfl]
      simp only [hand, hplaying]
      rfl
  | stopRecording =>
      cases hs
      refine haside ?_ hk
      obtain ⟨m, hm⟩ := stopRecording_memory k
      rw [hm]
      exact hand_emit rfl _
  | setMemory slot content =>
      cases hs
      refine haside ?_ hk
      obtain ⟨m, hm⟩ := setMemory_memory slot content k
      rw [hm]
      rfl

theorem handling_init (a : Answers) : Handling (hand (init a (Keyer.zero : Keyer F))) := by
  refine ⟨rfl, rfl, rfl, ⟨.idle, rfl, .inl rfl⟩, ?_⟩
  rintro (hbad | hbad) <;> cases hbad

theorem handling_update (hardware : Fin maxTransitionsPerTick → Answers) {k : Keyer F}
    (hh : Handling (hand k)) :
    Handling (hand (update hardware k)) :=
  update_invariant (fun k => Handling (hand k)) hardware (fun i _ hk => hk.move (pass_moves (hardware i) hk)) hh

/-- A paddle that is latched is heard within the next two elements, whatever the other paddle does. -/
theorem latched_served {k₀ k : Keyer F} (hstart : Handling (hand k₀)) {acts : List Action}
    (hrun : Run step (fun _ act => Keys (fun _ => True) act) k₀ acts k) :
    ∃ es, keyed k.trace = keyed k₀.trace ++ es ∧
      (k₀.ditBuffered = true → 2 ≤ es.length → .dit ∈ es.take 2) ∧
      (k₀.dahBuffered = true → 2 ≤ es.length → .dah ∈ es.take 2) := by
  obtain ⟨es, hes, hdit, hdah⟩ := keying_invariant hstart hrun
    (fun es h => (k₀.ditBuffered = true → Waiting .dit h.dit h.sent es) ∧
      (k₀.dahBuffered = true → Waiting .dah h.dah h.sent es))
    ⟨fun hset => .inr ⟨hset, .inl rfl⟩, fun hset => .inr ⟨hset, .inl rfl⟩⟩
    (by
      rintro a h h' es - hh hm ⟨hdit, hdah⟩
      cases hm with
      | rest hst hrestdit hrestdah sent hsent heq =>
          subst heq
          have hnodit : h.dit = false := (Bool.or_eq_false_iff.mp hrestdit).1
          have hnodah : h.dah = false := (Bool.or_eq_false_iff.mp hrestdah).1
          refine ⟨[], (List.append_nil _).symm, fun hset => ?_, fun hset => ?_⟩
          · rw [List.append_nil]
            refine .inl ((hdit hset).resolve_right fun h => ?_)
            rw [hnodit] at h
            cases h.1
          · rw [List.append_nil]
            refine .inl ((hdah hset).resolve_right fun h => ?_)
            rw [hnodah] at h
            cases h.1
      | send hst dit dah hd hD hany e he heq =>
          subst heq he
          refine ⟨[choice h.sent dit dah], keyed_cons _ _, fun hset => ?_, fun hset => ?_⟩
          · refine (hdit hset).send (by decide) fun hl => ?_
            rw [if_pos rfl, hd, hl, Bool.true_or]
          · refine (hdah hset).send (by decide) fun hl => ?_
            rw [if_neg (by decide), hD, hl, Bool.true_or]
      | latch st next hst hidle dit dah hd hD hleft hright hnext entered hentered heq =>
          subst heq
          refine ⟨[], ?_, fun hset => ?_, fun hset => ?_⟩
          · rw [keyed, hentered, List.append_nil, keyed]
          · rw [List.append_nil]
            exact (hdit hset).kept hd
          · rw [List.append_nil]
            exact (hdah hset).kept hD)
  have hserved {e : Element} {latch : Bool} {sent : Element} (hw : Waiting e latch sent es)
    (hlong : 2 ≤ es.length) :
      e ∈ es.take 2 := by
    refine hw.resolve_right ?_
    rintro ⟨-, rfl | ⟨rfl, -⟩⟩
    · exact absurd hlong (Nat.not_succ_le_zero 1)
    · exact absurd hlong (Nat.not_succ_le_self 1)
  exact ⟨es, hes, fun hset => hserved (hdit hset), fun hset => hserved (hdah hset)⟩

/-- After both paddles are released the keyer sends what is latched, in turn, and nothing else. -/
theorem released_sends_owed {k₀ k : Keyer F} (hstart : Handling (hand k₀)) {acts : List Action}
    (hrun : Run step (fun _ act => Keys Answers.Released act) k₀ acts k) :
    ∃ es, keyed k.trace = keyed k₀.trace ++ es ∧
      es ++ owed k.sentElement k.ditBuffered k.dahBuffered =
        owed k₀.sentElement k₀.ditBuffered k₀.dahBuffered := by
  refine keying_invariant hstart hrun
    (fun es h => es ++ owed h.sent h.dit h.dah = owed k₀.sentElement k₀.ditBuffered k₀.dahBuffered) rfl ?_
  rintro a h h' es ha hh hm howed
  cases hm with
  | rest hst hdit hdah sent hsent heq =>
      subst heq
      have hnodit : h.dit = false := (Bool.or_eq_false_iff.mp hdit).1
      have hnodah : h.dah = false := (Bool.or_eq_false_iff.mp hdah).1
      refine ⟨[], (List.append_nil _).symm, ?_⟩
      rw [hnodit, hnodah] at howed ⊢
      rw [List.append_nil]
      exact howed
  | send hst dit dah hdit hdah hany e he heq =>
      subst heq he
      rw [(ha .left).2, Bool.or_false] at hdit
      rw [(ha .right).2, Bool.or_false] at hdah
      refine ⟨[choice h.sent dit dah], keyed_cons _ _, ?_⟩
      rw [← hdit, ← hdah, owed_choice hany] at howed
      rw [List.append_assoc]
      exact howed
  | latch st next hst hidle dit dah hdit hdah hleft hright hnext entered hentered heq =>
      subst heq
      have hsame {latched latched' pressed polled : Bool} (hkept : latched = true → latched' = true)
          (hnew : latched' = true → latched = true ∨ pressed = true ∨ polled = true)
            (hpressed : pressed = false)
          (hpolled : polled = false) : latched' = latched := by
        rw [hpressed, hpolled] at hnew
        rw [Bool.eq_iff_iff]
        exact ⟨fun h => (hnew h).resolve_right (by decide), hkept⟩
      refine ⟨[], ?_, ?_⟩
      · rw [keyed, hentered, List.append_nil, keyed]
      · dsimp only
        rw [hsame hdit hleft (ha .left).1 (ha .left).2, hsame hdah hright (ha .right).1 (ha .right).2,
          List.append_nil]
        exact howed

def Squeezed (a : Answers) : Prop := ∀ side, a.polled side = true

instance : DecidablePred Squeezed := fun a => inferInstanceAs (Decidable (∀ side, a.polled side = true))

/-- While both paddles are held, dits and dahs alternate. -/
theorem squeezed_alternates {k₀ k : Keyer F} (hstart : Handling (hand k₀)) {acts : List Action}
    (hrun : Run step (fun _ act => Keys Squeezed act) k₀ acts k) :
    ∃ es, keyed k.trace = keyed k₀.trace ++ es ∧ es = alternate (follow k₀.sentElement) es.length := by
  obtain ⟨es, hes, halternate⟩ := keying_invariant hstart hrun
    (fun es h => ∀ n, es ++ alternate (follow h.sent) n = alternate (follow k₀.sentElement) (es.length + n))
    (fun n => by rw [List.nil_append, List.length_nil, Nat.zero_add]; rfl)
    (by
      rintro a h h' es ha hh hm halternate
      cases hm with
      | rest hst hdit hdah sent hsent heq =>
          rw [ha .left, Bool.or_true] at hdit
          cases hdit
      | send hst dit dah hdit hdah hany e he heq =>
          subst heq
          rw [ha .left, Bool.or_true] at hdit
          rw [ha .right, Bool.or_true] at hdah
          rw [hdit, hdah, choice_both] at he
          have hne : e ≠ .none := he ▸ choice_ne h.sent true true
          refine ⟨[e], keyed_cons _ _, fun n => ?_⟩
          have hnext := halternate (n + 1)
          rw [← he, alternate] at hnext
          rw [follow, if_neg hne, List.length_append, List.length_singleton, Nat.add_assoc, Nat.add_comm 1,
            ← hnext,
            List.append_assoc]
          rfl
      | latch st next hst hidle dit dah hdit hdah hleft hright hnext entered hentered heq =>
          subst heq
          refine ⟨[], ?_, fun n => ?_⟩
          · rw [keyed, hentered, List.append_nil, keyed]
          · rw [List.append_nil]
            exact halternate n)
  refine ⟨es, hes, ?_⟩
  have hall := halternate 0
  rwa [alternate, List.append_nil, Nat.add_zero] at hall

end

def held (t : UInt32) : Answers := { Answers.quiet t with pressed := fun _ => true, polled := fun _ => true }

def squeezedOnce : Keyer ℚ := update (fun _ => held 1000) (init (.quiet 0) Keyer.zero)

theorem squeezedOnce_handling : Handling (hand squeezedOnce) := handling_update _ (handling_init _)

def ticks (answers : UInt32 → Answers) : List Action :=
  (List.range 5).map fun n => .tick fun _ => answers (UInt32.ofNat (1000 * (n + 2)))

theorem squeezedOnce_alternates : ∃ (k : Keyer ℚ) (es : List Element),
    keyed k.trace = .dit :: es ∧ es = [.dah, .dit] ∧ es = alternate (follow .dit) es.length := by
  obtain ⟨k, hrun, hkeyed⟩ := run_of_exec_map step (fun _ act => Keys Squeezed act) squeezedOnce (ticks held)
    (fun k => keyed k.trace) [.dit, .dah, .dit] (by decide +kernel)
  obtain ⟨es, hes, halternate⟩ := squeezed_alternates squeezedOnce_handling hrun
  have hstart : keyed squeezedOnce.trace = [.dit] ∧ squeezedOnce.sentElement = .dit := by decide +kernel
  rw [hstart.1] at hes
  rw [hstart.2] at halternate
  exact ⟨k, es, hes, List.append_cancel_left (hes.symm.trans hkeyed), halternate⟩

theorem squeezedOnce_released : ∃ (k : Keyer ℚ) (es : List Element), keyed k.trace = .dit :: es ∧
    es ++ owed k.sentElement k.ditBuffered k.dahBuffered = [.dah] := by
  obtain ⟨k, hrun, -⟩ := run_of_exec_map step (fun _ act => Keys Answers.Released act) squeezedOnce
    (ticks .quiet)
    (fun k => keyed k.trace) [.dit, .dah] (by decide +kernel)
  obtain ⟨es, hes, howed⟩ := released_sends_owed squeezedOnce_handling hrun
  have hstart : keyed squeezedOnce.trace = [.dit] ∧
      owed squeezedOnce.sentElement squeezedOnce.ditBuffered squeezedOnce.dahBuffered = [.dah] := by
    decide +kernel
  rw [hstart.1] at hes
  exact ⟨k, es, hes, howed.trans hstart.2⟩

theorem squeezedOnce_served : ∃ (k : Keyer ℚ) (es : List Element),
    keyed k.trace = .dit :: es ∧ es.length = 2 ∧ .dah ∈ es.take 2 := by
  obtain ⟨k, hrun, hkeyed⟩ := run_of_exec_map step (fun _ act => Keys (fun _ => True) act) squeezedOnce
    (ticks held)
    (fun k => keyed k.trace) [.dit, .dah, .dit] (by decide +kernel)
  obtain ⟨es, hes, -, hdah⟩ := latched_served squeezedOnce_handling hrun
  have hstart : keyed squeezedOnce.trace = [.dit] ∧ squeezedOnce.dahBuffered = true := by decide +kernel
  rw [hstart.1] at hes
  have hlength : es.length = 2 := by rw [List.append_cancel_left (hes.symm.trans hkeyed)]; rfl
  exact ⟨k, es, hes, hlength, hdah hstart.2 (Nat.le_of_eq hlength.symm)⟩

end Cwsd.PaddleKeying

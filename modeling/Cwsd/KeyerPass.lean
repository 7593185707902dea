import Cwsd.KeyerTrack

namespace Cwsd.KeyerPass

open KeyerState KeyerMachine KeyerTrack CharPatterns

theorem getArguments_spec (n : Nat) (b : CircularBuffer UInt8) (h : n ≤ b.contents.length) :
    (getArguments n b).1 = b.contents.take n ∧ (getArguments n b).2.contents = b.contents.drop n := by
  induction n generalizing b with
  | zero => simp [getArguments]
  | succ n ih =>
      have hne : b.empty = false := by
        rw [Bool.eq_false_iff, ne_eq, b.empty_iff_contents]
        intro he
        simp [he] at h
      have hc := b.contents_cons hne
      rw [hc, List.length_cons] at h
      obtain ⟨h1, h2⟩ := ih b.get.2 (Nat.le_of_succ_le_succ h)
      rw [hc, List.take_succ_cons, List.drop_succ_cons]
      exact ⟨by rw [getArguments, h1, b.get_fst], h2⟩

section

variable {F : Type} [SinglePrecision F]

def updatePass (a : Answers) (k : Keyer F) : Keyer F :=
  match k.currentState with
  | none => k
  | some st =>
      if (stateUpdate a st k).1 = st then (stateUpdate a st k).2
      else switchTo a (stateUpdate a st k).1 (stateUpdate a st k).2

theorem pass_stay {a : Answers} {k : Keyer F} {st : StateType} (hst : k.currentState = some st)
    (h : (stateUpdate a st k).1 = st) : updatePass a k = (stateUpdate a st k).2 := by
  simp [updatePass, hst, h]

theorem pass_move {a : Answers} {k k' : Keyer F} {st next : StateType} (hst : k.currentState = some st)
    (h : stateUpdate a st k = (next, k')) (hne : next ≠ st) : updatePass a k = switchTo a next k' := by
  simp [updatePass, hst, h, hne]

theorem updateLoop_invariant (inv : Keyer F → Prop) (as : List Answers)
    (hpass : ∀ a ∈ as, ∀ k, inv k → inv (updatePass a k)) {k : Keyer F} (hk : inv k) :
    inv (updateLoop as k) := by
  induction as generalizing k with
  | nil => exact hk
  | cons a as ih =>
      have hp := hpass a (by simp) k hk
      simp only [updateLoop]
      cases hst : k.currentState with
      | none => exact hk
      | some st =>
          simp only [updatePass, hst] at hp
          by_cases hn : (stateUpdate a st k).1 = st
          · simpa only [hn, if_true] using hp
          · simp only [hn, if_false] at hp ⊢
            exact ih (fun b hb => hpass b (by simp [hb])) hp

theorem update_invariant (inv : Keyer F → Prop) (hardware : Fin maxTransitionsPerTick → Answers)
    (hpass : ∀ i k, inv k → inv (updatePass (hardware i) k)) {k : Keyer F} (hk : inv k) :
    inv (update hardware k) := by
  refine updateLoop_invariant inv _ ?_ hk
  intro a ha k hk
  obtain ⟨i, rfl⟩ := List.mem_ofFn.mp ha
  exact hpass i k hk

theorem toNat_sub_one {n : UInt8} (h : n ≠ 0) : (n - 1).toNat = n.toNat - 1 := by
  have hpos : 1 ≤ n := by
    rw [UInt8.le_iff_toNat_le]
    have : n.toNat ≠ 0 := fun h0 => h (UInt8.toNat_inj.mp (by simpa using h0))
    simp only [UInt8.toNat_one]
    omega
  rw [UInt8.toNat_sub_of_le _ _ hpos, UInt8.toNat_one]

def nextElement (data : UInt16) (bit : UInt8) : Element :=
  if data.toNat.testBit (bit.toNat - 1) then .dah else .dit

/-- The elements that the bits of a character still ask for. -/
def elementsOf (data : UInt16) : Nat → List Element
  | 0 => []
  | n + 1 => (if data.toNat.testBit n then .dah else .dit) :: elementsOf data n

theorem elementsOf_pos (data : UInt16) {bit : UInt8} (h : bit ≠ 0) :
    elementsOf data bit.toNat = nextElement data bit :: elementsOf data (bit - 1).toNat := by
  rw [toNat_sub_one h]
  have hpos : bit.toNat ≠ 0 := fun h0 => h (UInt8.toNat_inj.mp (by simpa using h0))
  obtain ⟨n, hn⟩ := Nat.exists_eq_succ_of_ne_zero hpos
  simp [hn, elementsOf, nextElement]

/-- Sending from the buffer: no paddle is latched, no memory is played, and after
the first byte the WinKeyer flag stays set. -/
structure Sending (t : Track) : Prop where
  dit : t.dit = false
  dah : t.dah = false
  notPlaying : t.playing = false
  state : t.state = some .idle ∨ t.enabled = true ∧
    ∃ st, t.state = some st ∧ st ≠ .idle ∧ st ≠ .play ∧ st ≠ .keyDown ∧ st ≠ .tune

/-- Everything one pass can do while the keyer sends from its buffer. -/
inductive Move (t t' : Track) : Prop
  | stay (heq : t' = t)
  | route (st next : StateType) (hst : t.state = some st) (hne : st ≠ .winkeyer)
      (hnext : next = if st = .sendElement then .interElementSpace else .winkeyer) (sent : Element)
      (heq : t' = { t with
        state := some next
        enabled := t.enabled || decide (next = .winkeyer)
        marks := .entered next sent :: t.marks })
  | space (hst : t.state = some .winkeyer) (hbit : t.bit = 0) (hplayed : t.played = false) (sent : Element)
      (heq : t' = { t with
        state := some .autospace
        played := true
        marks := .entered .autospace sent :: t.marks })
  | send (hst : t.state = some .winkeyer) (hbit : t.bit ≠ 0)
      (heq : t' = { t with
        state := some .sendElement
        bit := t.bit - 1
        marks := .entered .sendElement (nextElement t.data t.bit) :: t.marks })
  | command (hst : t.state = some .winkeyer) (hbit : t.bit = 0) (hplayed : t.played = true)
      (c : UInt8) (rest : List UInt8)
      (hc : isWinkeyerCommand c = true) (hbuf : t.buffer.contents = c :: rest)
      (hlen : parameterCount c ≤ rest.length)
      (buffer : CircularBuffer UInt8) (hrest : buffer.contents = rest.drop (parameterCount c))
      (heq : t' = { t with
        buffer := buffer
        marks := .fetched c (rest.take (parameterCount c)) :: t.marks })
  | gap (hst : t.state = some .winkeyer) (hbit : t.bit = 0) (hplayed : t.played = true)
      (c : UInt8) (rest : List UInt8)
      (hc : isWinkeyerCommand c = false) (hbuf : t.buffer.contents = c :: rest)
      (hpat : c = '|'.toUInt8 ∨ getCharPattern c = none) (next : StateType)
      (hnext : next = if c = '|'.toUInt8 then .halfDotGap else .interWordSpace)
      (sent : Element) (buffer : CircularBuffer UInt8) (hrest : buffer.contents = rest)
      (heq : t' = { t with
        state := some next
        buffer := buffer
        marks := .entered next sent :: .fetched c [] :: t.marks })
  | char (hst : t.state = some .winkeyer) (hbit : t.bit = 0) (hplayed : t.played = true)
      (c : UInt8) (rest : List UInt8)
      (hc : isWinkeyerCommand c = false) (hbuf : t.buffer.contents = c :: rest)
      (hbar : c ≠ '|'.toUInt8) (p : CharPattern) (hpat : getCharPattern c = some p)
      (buffer : CircularBuffer UInt8) (hrest : buffer.contents = rest)
      (heq : t' = { t with
        state := some .sendElement
        buffer := buffer
        data := p.sentCharData
        bit := p.sentCharBits - 1
        played := false
        marks := .entered .sendElement (nextElement p.sentCharData p.sentCharBits) ::
          .fetched c [] :: t.marks })

theorem pass_switch {a : Answers} {k k' : Keyer F} {st next : StateType}
    (hst : k.currentState = some st) (hu : stateUpdate a st k = (next, k')) (hne : next ≠ st)
    (hst' : k'.currentState = some st) (hdit : k'.ditBuffered = false) (hdah : k'.dahBuffered = false) :
    track (updatePass a k) =
      { track k' with
        state := some next
        enabled := (track k').enabled || decide (next = .winkeyer)
        marks := .entered next k'.sentElement :: (track k').marks } := by
  rw [pass_move hst hu hne]
  exact track_switchTo hst' hne hdit hdah

theorem idle_update {a : Answers} (ha : a.Released) {k : Keyer F} (hs : Sending (track k)) :
    ∃ k', track k' = track k ∧
      (stateUpdate a .idle k = (.idle, k') ∨ stateUpdate a .idle k = (.winkeyer, k')) := by
  obtain ⟨k₁, hpoll, -, htrack, -⟩ := pollPaddles_released ha hs.dit hs.dah
  have hdit : k₁.ditBuffered = false := (congrArg Track.dit htrack).trans hs.dit
  have hdah : k₁.dahBuffered = false := (congrArg Track.dah htrack).trans hs.dah
  simp only [stateUpdate, updateIdle, hpoll, hdit, hdah, Bool.false_and, Bool.or_self,
    Bool.false_eq_true, if_false]
  split
  · exact ⟨k₁, htrack, .inr rfl⟩
  · exact ⟨_, by rw [track_idleWordSpace, track_idleDecode, htrack], .inl rfl⟩

theorem timed_update {a : Answers} (ha : a.Released) {k : Keyer F} (hs : Sending (track k))
    (hen : k.winkeyerEnabled = true) {st : StateType} (hst : st ≠ .winkeyer ∧ st ≠ .idle ∧
      st ≠ .play ∧ st ≠ .keyDown ∧ st ≠ .tune) :
    ∃ k', track k' = track k ∧ (stateUpdate a st k = (st, k') ∨
      stateUpdate a st k = (if st = .sendElement then .interElementSpace else .winkeyer, k')) := by
  have hplay : k.isPlaying = false := hs.notPlaying
  cases st with
  | sendElement =>
      simp only [stateUpdate, updateSendElement, checkOppositePaddle_released ha, ite_self, if_true]
      split
      · exact ⟨k, rfl, .inr rfl⟩
      · exact ⟨k, rfl, .inl rfl⟩
  | interElementSpace =>
      simp only [stateUpdate, updateInterElementSpace, checkOppositePaddle_released ha, hen, if_true,
        reduceCtorEq, if_false]
      split
      · exact ⟨k, rfl, .inr rfl⟩
      · exact ⟨k, rfl, .inl rfl⟩
  | interWordSpace =>
      obtain ⟨k₁, hpoll, -, htrack, -⟩ := pollPaddles_released ha hs.dit hs.dah
      have hen₁ : k₁.winkeyerEnabled = true := (congrArg Track.enabled htrack).trans hen
      simp only [stateUpdate, updateInterWordSpace, hpoll, hen₁, if_true, reduceCtorEq, if_false]
      split
      · exact ⟨{ k₁ with lastSendTime := a.updateMs }, htrack, .inr (by rw [← hen₁])⟩
      · exact ⟨k₁, htrack, .inl rfl⟩
  | autospace =>
      simp only [stateUpdate, updateAutospace, afterGap, hplay, hen, if_true, reduceCtorEq,
        if_false, Bool.false_eq_true]
      split
      · exact ⟨k, rfl, .inr rfl⟩
      · exact ⟨k, rfl, .inl rfl⟩
  | halfDotGap =>
      simp only [stateUpdate, updateHalfDotGap, afterGap, hplay, hen, if_true, reduceCtorEq,
        if_false, Bool.false_eq_true]
      split
      · exact ⟨k, rfl, .inr rfl⟩
      · exact ⟨k, rfl, .inl rfl⟩
  | idle | winkeyer | play | keyDown | tune => simp at hst

theorem consume_command {c : UInt8} (hc : isWinkeyerCommand c = true) (hclear : c ≠ 0x0A) (k : Keyer F) :
    ∃ k', consume c k = (.winkeyer, k') ∧ track k' = { track k with
      buffer := (getArguments (parameterCount c) k.winkeyerBuffer.get.2).2
      marks := .fetched c (getArguments (parameterCount c) k.winkeyerBuffer.get.2).1 ::
        (track k).marks } := by
  refine ⟨(consume c k).2, by simp only [consume, hc, if_true], ?_⟩
  simp only [consume, hc, if_true, executeBuffered, hclear, if_false]
  have h := track_emit_mark (e := .fetched c (getArguments (parameterCount c) k.winkeyerBuffer.get.2).1) rfl
    { k with winkeyerBuffer := (getArguments (parameterCount c) k.winkeyerBuffer.get.2).2 }
  split
  · exact h
  · exact h

theorem consume_text {c : UInt8} (hc : isWinkeyerCommand c = false) (k : Keyer F) :
    consume c k =
      let k := emit (.fetched c []) { k with winkeyerBuffer := k.winkeyerBuffer.get.2 }
      if c = '|'.toUInt8 then (.halfDotGap, k)
      else match getCharPattern c with
        | none => (.interWordSpace, k)
        | some p => (.sendElement, { k with
            playingData := p.sentCharData
            playingBit := p.sentCharBits - 1
            winkeyerInterCharSpacePlayed := false
            sentElement := nextElement p.sentCharData p.sentCharBits }) := by
  simp only [consume, hc, Bool.false_eq_true, if_false]
  rfl

theorem contents_of_peek {b : CircularBuffer UInt8} (hne : b.empty = false) :
    b.contents = b.peek :: b.get.2.contents ∧ b.size = b.get.2.contents.length + 1 := by
  have hc := b.contents_cons hne
  exact ⟨hc, by rw [← b.contents_length, hc, List.length_cons]⟩

theorem winkeyer_update {a : Answers} (ha : a.Released) {k : Keyer F} (hs : Sending (track k)) :
    ∃ k', track k' = track k ∧ stateUpdate a .winkeyer k =
      if k'.playingBit = 0 then
        if !k'.winkeyerInterCharSpacePlayed then
          (.autospace, { k' with winkeyerInterCharSpacePlayed := true })
        else if k'.winkeyerBuffer.empty then (.winkeyer, k')
        else if isWinkeyerCommand k'.winkeyerBuffer.peek &&
            decide (k'.winkeyerBuffer.size ≤ parameterCount k'.winkeyerBuffer.peek) then (.winkeyer, k')
        else consume k'.winkeyerBuffer.peek k'
      else sendPlayingBit k' := by
  obtain ⟨k', hpoll, hpad, htrack, -⟩ := pollPaddles_released ha hs.dit hs.dah
  refine ⟨k', htrack, ?_⟩
  simp only [stateUpdate, updateWinkeyer, hpoll]
  rw [if_neg (by simp [hpad])]

theorem text_moves {a : Answers} {k k₁ : Keyer F} (hst : k.currentState = some .winkeyer)
    (hst₁ : k₁.currentState = some .winkeyer) (hdit : k₁.ditBuffered = false) (hdah : k₁.dahBuffered = false)
    (hbit : k₁.playingBit = 0) (hplayed : k₁.winkeyerInterCharSpacePlayed = true)
    (hcons : k₁.winkeyerBuffer.contents = k₁.winkeyerBuffer.peek :: k₁.winkeyerBuffer.get.2.contents)
    (hc : isWinkeyerCommand k₁.winkeyerBuffer.peek = false)
    (hu : stateUpdate a .winkeyer k = consume k₁.winkeyerBuffer.peek k₁) :
    Move (track k₁) (track (updatePass a k)) := by
  have hfetch (c : UInt8) : track (emit (.fetched c []) { k₁ with winkeyerBuffer := k₁.winkeyerBuffer.get.2 }) =
      { track k₁ with
        buffer := k₁.winkeyerBuffer.get.2
        marks := .fetched c [] :: (track k₁).marks } := track_emit_mark rfl _
  rw [consume_text hc] at hu
  by_cases hbar : k₁.winkeyerBuffer.peek = '|'.toUInt8
  · rw [if_pos hbar] at hu
    refine .gap hst₁ hbit hplayed _ _ hc hcons (.inl hbar) .halfDotGap (by simp [hbar]) k₁.sentElement _ rfl ?_
    rw [pass_switch hst hu (by decide) hst₁ hdit hdah, hfetch]
    simp [emit]
  · rw [if_neg hbar] at hu
    cases hpat : getCharPattern k₁.winkeyerBuffer.peek with
    | none =>
        simp only [hpat] at hu
        refine .gap hst₁ hbit hplayed _ _ hc hcons (.inr hpat) .interWordSpace (by simp [hbar])
          k₁.sentElement _ rfl ?_
        rw [pass_switch hst hu (by decide) hst₁ hdit hdah, hfetch]
        simp [emit]
    | some p =>
        simp only [hpat] at hu
        refine .char hst₁ hbit hplayed _ _ hc hcons hbar p hpat _ rfl ?_
        rw [pass_switch hst hu (by decide) hst₁ hdit hdah]
        have hmark : isMark (.fetched k₁.winkeyerBuffer.peek []) = true := rfl
        simp [track, emit, hmark]

theorem command_moves {a : Answers} {k k₁ : Keyer F} (hst : k.currentState = some .winkeyer)
    (hst₁ : k₁.currentState = some .winkeyer) (hbit : k₁.playingBit = 0)
    (hplayed : k₁.winkeyerInterCharSpacePlayed = true)
    (hcons : k₁.winkeyerBuffer.contents = k₁.winkeyerBuffer.peek :: k₁.winkeyerBuffer.get.2.contents)
    (hc : isWinkeyerCommand k₁.winkeyerBuffer.peek = true) (hclear : k₁.winkeyerBuffer.peek ≠ 0x0A)
    (hle : parameterCount k₁.winkeyerBuffer.peek ≤ k₁.winkeyerBuffer.get.2.contents.length)
    (hu : stateUpdate a .winkeyer k = consume k₁.winkeyerBuffer.peek k₁) :
    Move (track k₁) (track (updatePass a k)) := by
  obtain ⟨k₂, hk₂, ht₂⟩ := consume_command hc hclear k₁
  rw [hk₂] at hu
  obtain ⟨hargs, hrest⟩ := getArguments_spec _ _ hle
  refine .command hst₁ hbit hplayed _ _ hc hcons hle _ hrest ?_
  rw [pass_stay hst (by rw [hu]), hu, ht₂, hargs]

theorem winkeyer_moves {a : Answers} (ha : a.Released) {k : Keyer F} (hs : Sending (track k))
    (hst : k.currentState = some .winkeyer)
    (hclear : ∀ c rest, k.winkeyerBuffer.contents = c :: rest → c ≠ 0x0A) :
    Move (track k) (track (updatePass a k)) := by
  obtain ⟨k₁, htrack, hu⟩ := winkeyer_update ha hs
  have hst₁ : k₁.currentState = some .winkeyer := (congrArg Track.state htrack).trans hst
  have hdit : k₁.ditBuffered = false := (congrArg Track.dit htrack).trans hs.dit
  have hdah : k₁.dahBuffered = false := (congrArg Track.dah htrack).trans hs.dah
  have hbuf : k₁.winkeyerBuffer = k.winkeyerBuffer := congrArg Track.buffer htrack
  rw [← hbuf] at hclear
  rw [← htrack]
  by_cases hbit : k₁.playingBit = 0
  · rw [if_pos hbit] at hu
    cases hplayed : k₁.winkeyerInterCharSpacePlayed
    · rw [if_pos (by simp [hplayed])] at hu
      refine .space hst₁ hbit hplayed k₁.sentElement ?_
      rw [pass_switch hst hu (by decide) hst₁ hdit hdah]
      simp [track]
    · rw [if_neg (by simp [hplayed])] at hu
      cases hempty : k₁.winkeyerBuffer.empty
      · obtain ⟨hcons, hsize⟩ := contents_of_peek hempty
        rw [if_neg (by simp [hempty])] at hu
        cases hc : isWinkeyerCommand k₁.winkeyerBuffer.peek
        · rw [if_neg (by simp [hc])] at hu
          exact text_moves hst hst₁ hdit hdah hbit hplayed hcons hc hu
        · by_cases hlen : k₁.winkeyerBuffer.size ≤ parameterCount k₁.winkeyerBuffer.peek
          · rw [if_pos (by simp [hc, hlen])] at hu
            exact .stay (by rw [pass_stay hst (by rw [hu]), hu])
          · rw [if_neg (by simp [hc, hlen])] at hu
            exact command_moves hst hst₁ hbit hplayed hcons hc (hclear _ _ hcons) (by omega) hu
      · rw [if_pos hempty] at hu
        exact .stay (by rw [pass_stay hst (by rw [hu]), hu])
  · rw [if_neg hbit] at hu
    refine .send hst₁ hbit ?_
    rw [pass_switch hst hu (by decide) hst₁ hdit hdah]
    simp [track, nextElement]
    rfl

theorem other_moves {a : Answers} (ha : a.Released) {k : Keyer F} (hs : Sending (track k))
    (hw : k.currentState ≠ some .winkeyer) : Move (track k) (track (updatePass a k)) := by
  have hroute {st next : StateType} {k' : Keyer F} (hst : k.currentState = some st) (hw : st ≠ .winkeyer)
      (htrack : track k' = track k) (hnext : next = if st = .sendElement then .interElementSpace else .winkeyer)
      (hu : stateUpdate a st k = (st, k') ∨ stateUpdate a st k = (next, k')) :
      Move (track k) (track (updatePass a k)) := by
    rcases hu with hu | hu
    · exact .stay (by rw [pass_stay hst (by rw [hu]), hu, htrack])
    · have hne : next ≠ st := by
        rw [hnext]
        cases st <;> simp at hw ⊢
      refine .route st next hst hw hnext k'.sentElement ?_
      rw [pass_switch hst hu hne ((congrArg Track.state htrack).trans hst)
        ((congrArg Track.dit htrack).trans hs.dit) ((congrArg Track.dah htrack).trans hs.dah), htrack]
  rcases hs.state with hst | ⟨hen, st, hst, hne⟩
  · obtain ⟨k', htrack, hu⟩ := idle_update ha hs
    exact hroute hst (by decide) htrack rfl hu
  · have hother : st ≠ .winkeyer := by
      rintro rfl
      exact hw hst
    obtain ⟨k', htrack, hu⟩ := timed_update ha hs hen ⟨hother, hne⟩
    exact hroute hst hother htrack rfl hu

/-- The inversion of one pass. -/
theorem pass_moves {a : Answers} (ha : a.Released) {k : Keyer F} (hs : Sending (track k))
    (hclear : ∀ c rest, k.winkeyerBuffer.contents = c :: rest → c ≠ 0x0A) :
    Move (track k) (track (updatePass a k)) := by
  by_cases hw : k.currentState = some .winkeyer
  · exact winkeyer_moves ha hs hw hclear
  · exact other_moves ha hs hw

theorem Sending.enabled {t : Track} (h : Sending t) (hst : t.state = some .winkeyer) : t.enabled = true := by
  rcases h.state with hidle | hothers
  · rw [hidle] at hst
    cases hst
  · exact hothers.1

theorem Move.sending {t t' : Track} (h : Move t t') (hs : Sending t) : Sending t' := by
  have hen := hs.enabled
  cases h with
  | stay heq => exact heq ▸ hs
  | route st next hst hne hnext sent heq =>
      subst heq
      refine ⟨hs.dit, hs.dah, hs.notPlaying, .inr ⟨?_, next, rfl, ?_⟩⟩
      · by_cases hsend : st = .sendElement
        · subst hsend
          rcases hs.state with h | h
          · rw [h] at hst
            cases hst
          · simp [h.1]
        · simp [hnext, hsend]
      · rw [hnext]
        split <;> decide
  | space hst hbit hplayed sent heq =>
      subst heq
      exact ⟨hs.dit, hs.dah, hs.notPlaying, .inr ⟨hen hst, _, rfl, by decide⟩⟩
  | send hst hbit heq =>
      subst heq
      exact ⟨hs.dit, hs.dah, hs.notPlaying, .inr ⟨hen hst, _, rfl, by decide⟩⟩
  | command hst hbit hplayed c rest hc hbuf hlen buffer hrest heq =>
      subst heq
      exact ⟨hs.dit, hs.dah, hs.notPlaying, hs.state⟩
  | gap hst hbit hplayed c rest hc hbuf hpat next hnext sent buffer hrest heq =>
      subst heq
      refine ⟨hs.dit, hs.dah, hs.notPlaying, .inr ⟨hen hst, next, rfl, ?_⟩⟩
      rw [hnext]
      split <;> decide
  | char hst hbit hplayed c rest hc hbuf hbar p hpat buffer hrest heq =>
      subst heq
      exact ⟨hs.dit, hs.dah, hs.notPlaying, .inr ⟨hen hst, _, rfl, by decide⟩⟩

theorem winkeyer_sending {a : Answers} (ha : a.Released) {k : Keyer F} (hs : Sending (track k))
    (hst : k.currentState = some .winkeyer) :
    ∃ next k', stateUpdate a .winkeyer k = (next, k') ∧ k'.currentState = some .winkeyer ∧
      Sending { track k' with state := some next } := by
  obtain ⟨k₁, htrack, hu⟩ := winkeyer_update ha hs
  have hst₁ : k₁.currentState = some .winkeyer := (congrArg Track.state htrack).trans hst
  have hs₁ : Sending (track k₁) := htrack ▸ hs
  have hen := hs₁.enabled hst₁
  have hkeep (next : StateType) {k' : Keyer F} (hdit : k'.ditBuffered = k₁.ditBuffered)
      (hdah : k'.dahBuffered = k₁.dahBuffered) (hplay : k'.isPlaying = k₁.isPlaying)
      (hen' : k'.winkeyerEnabled = k₁.winkeyerEnabled) (hcur : k'.currentState = k₁.currentState)
      (hnext : next ≠ .idle ∧ next ≠ .play ∧ next ≠ .keyDown ∧ next ≠ .tune) :
      k'.currentState = some .winkeyer ∧ Sending { track k' with state := some next } :=
    ⟨hcur.trans hst₁, hdit.trans hs₁.dit, hdah.trans hs₁.dah, hplay.trans hs₁.notPlaying,
      .inr ⟨hen'.trans hen, next, rfl, hnext⟩⟩
  refine ⟨(stateUpdate a .winkeyer k).1, (stateUpdate a .winkeyer k).2, rfl, ?_⟩
  rw [hu]
  split
  · split
    · exact hkeep .autospace rfl rfl rfl rfl rfl (by decide)
    split
    · exact hkeep .winkeyer rfl rfl rfl rfl rfl (by decide)
    split
    · exact hkeep .winkeyer rfl rfl rfl rfl rfl (by decide)
    simp only [consume]
    split
    · simp only [executeBuffered]
      split
      · exact hkeep .winkeyer rfl rfl rfl rfl rfl (by decide)
      split
      · exact hkeep .winkeyer rfl rfl rfl rfl rfl (by decide)
      · exact hkeep .winkeyer rfl rfl rfl rfl rfl (by decide)
    split
    · exact hkeep .halfDotGap rfl rfl rfl rfl rfl (by decide)
    split
    · exact hkeep .interWordSpace rfl rfl rfl rfl rfl (by decide)
    · exact hkeep .sendElement rfl rfl rfl rfl rfl (by decide)
  · exact hkeep .sendElement rfl rfl rfl rfl rfl (by decide)

/-- Sending goes on in every pass while no paddle is pressed. -/
theorem sending_pass {a : Answers} (ha : a.Released) {k : Keyer F} (hs : Sending (track k)) :
    Sending (track (updatePass a k)) := by
  by_cases hw : k.currentState = some .winkeyer
  · obtain ⟨next, k', hu, hst', hs'⟩ := winkeyer_sending ha hs hw
    by_cases hne : next = .winkeyer
    · subst hne
      have hsame : { track k' with state := some .winkeyer } = track k' := by
        rw [← hst']
        rfl
      rw [pass_stay hw (by rw [hu]), hu]
      exact hsame ▸ hs'
    · rw [pass_switch hw hu hne hst' hs'.dit hs'.dah]
      refine ⟨hs'.dit, hs'.dah, hs'.notPlaying, hs'.state.imp_right ?_⟩
      rintro ⟨hen, hothers⟩
      exact ⟨by rw [show (track k').enabled = true from hen]; rfl, hothers⟩
  · exact (other_moves ha hs hw).sending hs

end

end Cwsd.KeyerPass

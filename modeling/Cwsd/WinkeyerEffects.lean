import Cwsd.KeyLine
import Cwsd.WinkeyerFraming

namespace Cwsd.WinkeyerEffects

open KeyerState KeyerMachine KeyerFrame KeyerTrack KeyerPass CharPatterns WinkeyerData WinkeyerFeed KeyLine Framing
    WinkeyerFraming

/-- What a byte does at once to the buffer and to the speeds. -/
inductive Effect
  | put (c : UInt8)
  | speed (wpm : UInt8)
  | clear
  deriving DecidableEq, Repr

def execution (p : FrameParser) : List Effect :=
  if p.pending = 0x02 then [.speed (p.arguments.headD 0)]
  else if p.pending = 0x0A then [.clear]
  else []

def effect (c : UInt8) (p : FrameParser) : List Effect :=
  if 0 < p.waiting ∨ p.Starts c then
    if (p.feed c).waiting = 0 then execution (p.feed c) else []
  else [.put c]

theorem effect_put {c : UInt8} {p : FrameParser} (hwaiting : ¬ 0 < p.waiting) (hstarts : ¬ p.Starts c) :
    effect c p = [.put c] := by
  rw [effect, if_neg]
  exact fun h => h.elim hwaiting hstarts

def effects : List UInt8 → FrameParser → List Effect
  | [], _ => []
  | c :: bytes, p => effect c p ++ effects bytes (p.feed c)

/-- The part of the keyer that the speeds depend on, with the log of its buffer, newest first. -/
structure Pace (F : Type) where
  latched : Bool
  buffer : CircularBuffer UInt8
  log : List (Op UInt8)
  speed : F
  characterWpm : F
  farnsworthWpm : F

section

variable {F : Type}

def pace (k : Keyer F) : Pace F :=
  { latched := k.ditBuffered || k.dahBuffered, buffer := k.winkeyerBuffer
    log := k.trace.filterMap frameOp, speed := k.winkeyerSpeedWpm
    characterWpm := k.profile.style.characterWpm, farnsworthWpm := k.profile.style.farnsworthWpm }

theorem pace_emit {e : Event} (he : frameOp e = none) (k : Keyer F) : pace (emit e k) = pace k := by
  simp [pace, emit, he]

theorem pace_emit_op {e : Event} {op : Op UInt8} (he : frameOp e = some op) (k : Keyer F) :
    pace (emit e k) = { pace k with log := op :: (pace k).log } := by
  simp [pace, emit, he]

variable [SinglePrecision F]

def Pace.perform (p : Pace F) : Effect → Pace F
  | .put c => { p with buffer := p.buffer.put c, log := .put c :: p.log }
  | .speed wpm =>
      { p with speed := (wpm.toNat : F), characterWpm := (wpm.toNat : F), farnsworthWpm := (wpm.toNat : F) }
  | .clear => { p with buffer := p.buffer.reset, log := .clear :: p.log }

theorem pace_executePending (k : Keyer F) :
    pace (executePending k) = (execution (parser k)).foldl Pace.perform (pace k) := by
  have hexec : execution (parser k) =
      if k.winkeyerPendingCommand = 0x02 then [.speed (k.winkeyerArguments.headD 0)]
      else if k.winkeyerPendingCommand = 0x0A then [.clear] else [] := rfl
  rw [hexec]
  simp only [executePending]
  by_cases hspeed : k.winkeyerPendingCommand = 0x02
  · rw [if_pos hspeed, if_pos hspeed]
    exact pace_emit (by rfl) _
  rw [if_neg hspeed, if_neg hspeed]
  by_cases hweight : k.winkeyerPendingCommand = 0x03
  · rw [if_pos hweight, if_neg (by rw [hweight]; decide)]
    rfl
  rw [if_neg hweight]
  by_cases hclear : k.winkeyerPendingCommand = 0x0A
  · rw [if_pos hclear, if_pos hclear]
    exact pace_emit_op (by rfl) _
  rw [if_neg hclear, if_neg hclear]
  split
  · split
    · exact pace_emit (by rfl) k
    · exact pace_emit (by rfl) k
  · rfl

theorem pace_putBuffered (c : UInt8) (k : Keyer F) : pace (putBuffered c k) = (pace k).perform (.put c) :=
  pace_emit_op (by rfl) { k with winkeyerBuffer := k.winkeyerBuffer.put c }

theorem pace_winkeyerData (c : UInt8) (k : Keyer F) :
    pace (winkeyerData c k) = (effect c (parser k)).foldl Pace.perform (pace k) := by
  have hexec (h : 0 < (parser k).waiting ∨ (parser k).Starts c) : effect c (parser k) =
      if ((parser k).feed c).waiting = 0 then execution ((parser k).feed c) else [] := if_pos h
  rw [winkeyerData]
  by_cases hw : 0 < k.winkeyerWaitingForArguments
  · have hfeed : (parser k).feed c = { parser k with
        arguments := k.winkeyerArguments.set k.winkeyerArgumentIndex.toNat c
        index := k.winkeyerArgumentIndex + 1
        waiting := k.winkeyerWaitingForArguments - 1 } := if_pos hw
    rw [if_pos hw, hexec (.inl hw), hfeed]
    dsimp only
    by_cases hz : k.winkeyerWaitingForArguments - 1 = 0
    · rw [if_pos hz, if_pos hz, pace_executePending]
      rfl
    · rw [if_neg hz, if_neg hz]
      rfl
  · have hw' : ¬ 0 < (parser k).waiting := hw
    rw [if_neg hw]
    by_cases hs : k.winkeyerRemainingBufferedArguments = 0 ∧ isWinkeyerCommand c ∧ ¬ isWinkeyerBufferedCommand c
    · have hfeed : (parser k).feed c = { parser k with
          pending := c
          waiting := UInt8.ofNat (parameterCount c)
          index := 0 } := by
        rw [FrameParser.feed, if_neg hw']
        exact if_pos hs
      rw [if_pos hs, hexec (.inr hs), hfeed]
      dsimp only
      by_cases hz : UInt8.ofNat (parameterCount c) = 0
      · rw [if_pos hz, if_pos hz, pace_executePending]
        rfl
      · rw [if_neg hz, if_neg hz]
        rfl
    · have hput : effect c (parser k) = [.put c] := effect_put hw' hs
      rw [if_neg hs, pace_putBuffered, hput]
      rfl

/-- Everything one pass can do to the buffer and the speeds while no paddle is pressed. -/
inductive Fetch (p p' : Pace F) : Prop
  | same (heq : p' = p)
  | take (c : UInt8) (rest : List UInt8) (hbuf : p.buffer.contents = c :: rest)
      (hlen : frameArity c ≤ rest.length)
      (hne : c ≠ 0x0A) (buffer : CircularBuffer UInt8) (hrest : buffer.contents = rest.drop (frameArity c))
      (hmax : buffer.maxSize = p.buffer.maxSize)
      (heq : p' = { p with
        buffer := buffer
        log := .take c (rest.take (frameArity c)) :: p.log
        speed := if c = 0x1C then ((rest.headD 0).toNat : F) else p.speed })
  | reset (rest : List UInt8) (hbuf : p.buffer.contents = 0x0A :: rest) (buffer : CircularBuffer UInt8)
      (hempty : buffer.contents = []) (hmax : buffer.maxSize = p.buffer.maxSize)
      (heq : p' = { p with
        buffer := buffer
        log := .clear :: .take 0x0A [] :: p.log })

omit [SinglePrecision F] in
theorem pollPaddles_unlatched {a : Answers} (ha : a.Released) {k : Keyer F} (hk : (pace k).latched = false) :
    pollPaddles a.polled k = { k with paddles := .none } := by
  obtain ⟨hdit, hdah⟩ := Bool.or_eq_false_iff.mp hk
  exact pollPaddles_quiet ha hdit hdah

omit [SinglePrecision F] in
theorem pace_idleReport (c : UInt8) (k : Keyer F) : pace (idleReport c k) = pace k := by
  obtain ⟨m, i, recording, ended, heq, rfl | rfl⟩ := idleReport_memory c k
  · rw [heq]
    rfl
  · rw [heq]
    rfl

omit [SinglePrecision F] in
theorem pace_updateIdle {a : Answers} (ha : a.Released) {k : Keyer F} (hk : (pace k).latched = false) :
    pace (updateIdle a k).2 = pace k := by
  have hdecode (k : Keyer F) : pace (idleDecode a k) = pace k := by
    simp only [idleDecode]
    split
    · exact pace_idleReport _ _
    · rfl
  have hspace (k : Keyer F) : pace (idleWordSpace a k) = pace k := by
    simp only [idleWordSpace]
    split
    · exact pace_idleReport _ _
    · rfl
  simp only [updateIdle, pollPaddles_unlatched ha hk]
  split
  · rfl
  split
  · rfl
  split
  · rfl
  · exact (hspace _).trans (hdecode _)

theorem pace_stateUpdate {a : Answers} (ha : a.Released) {k : Keyer F} (hk : (pace k).latched = false)
    {st : StateType} (hst : st ≠ .winkeyer) : pace (stateUpdate a st k).2 = pace k := by
  cases st with
  | winkeyer => exact absurd rfl hst
  | idle => exact pace_updateIdle ha hk
  | keyDown | tune | autospace | halfDotGap => rfl
  | sendElement => simp only [stateUpdate, updateSendElement, checkOppositePaddle_released ha, ite_self]
  | interElementSpace =>
      simp only [stateUpdate, updateInterElementSpace, checkOppositePaddle_released ha,
        pollPaddles_unlatched ha hk]
      split
      · split
        · rfl
        split <;> rfl
      · rfl
  | interWordSpace =>
      simp only [stateUpdate, updateInterWordSpace, pollPaddles_unlatched ha hk]
      split <;> rfl
  | play =>
      simp only [stateUpdate, updatePlay]
      split
      · split
        · rfl
        split
        · exact pace_emit (by rfl) _
        · split <;> rfl
      · rfl

omit [SinglePrecision F] in
theorem pace_calm (k : Keyer F) : pace (calm k) = pace k := by
  have hlog : (calm k).trace.filterMap frameOp = k.trace.filterMap frameOp := by
    refine filterMap_filter_of_none (fun e he => ?_) k.trace
    cases e <;> first | rfl | cases he
  simp only [pace, hlog]
  rfl

omit [SinglePrecision F] in
theorem pace_switched (next : StateType) {k : Keyer F} (hk : (pace k).latched = false) :
    pace (switched next k) = pace k := by
  obtain ⟨hdit, hdah⟩ := Bool.or_eq_false_iff.mp hk
  cases next with
  | sendElement =>
      simp only [switched, arrive, emit, pace, hdit, hdah]
      rfl
  | _ => rfl

theorem pace_switchTo (a : Answers) (next : StateType) {k : Keyer F} (hk : (pace k).latched = false) :
    pace (switchTo a next k) = pace k := by
  cases hst : k.currentState with
  | none =>
      rw [switchTo, hst, ← pace_calm, calm_enter, pace_calm]
      exact pace_switched next hk
  | some st =>
      by_cases hne : next = st
      · rw [hne, switchTo_self a hst]
      · rw [view_switchTo pace_calm a hst hne, pace_switched next hk]

theorem maxSize_get (b : CircularBuffer UInt8) : b.get.2.maxSize = b.maxSize := by
  simp only [CircularBuffer.get]
  split <;> rfl

theorem maxSize_getArguments (n : Nat) (b : CircularBuffer UInt8) :
    (getArguments n b).2.maxSize = b.maxSize := by
  induction n generalizing b with
  | zero => rfl
  | succ n ih => exact (ih b.get.2).trans (maxSize_get b)

/-- A buffered command is taken with its arguments; clear takes everything, and speed sets its argument. -/
theorem consume_fetches_command {k : Keyer F} {c : UInt8} (hc : isWinkeyerCommand c = true)
    (hcons : k.winkeyerBuffer.contents = c :: k.winkeyerBuffer.get.2.contents)
    (hle : parameterCount c ≤ k.winkeyerBuffer.get.2.contents.length) :
    Fetch (pace k) (pace (consume c k).2) := by
  obtain ⟨hargs, hrest⟩ := getArguments_spec _ _ hle
  have hmax := (maxSize_getArguments (parameterCount c) k.winkeyerBuffer.get.2).trans
    (maxSize_get k.winkeyerBuffer)
  have harity := frameArity_command hc
  simp only [consume, hc, if_true, executeBuffered, hargs]
  by_cases hclear : c = 0x0A
  · subst hclear
    refine .reset _ hcons (getArguments (parameterCount 0x0A) k.winkeyerBuffer.get.2).2.reset
      (CircularBuffer.contents_reset _) hmax ?_
    rw [if_neg (by decide), if_pos rfl]
    exact pace_emit_op (by rfl) _
  · refine .take c _ hcons (harity ▸ hle) hclear _ (harity ▸ hrest) hmax ?_
    have hfetch := pace_emit_op (e := .fetched c
      (k.winkeyerBuffer.get.2.contents.take (parameterCount c))) (by rfl)
      { k with winkeyerBuffer := (getArguments (parameterCount c) k.winkeyerBuffer.get.2).2 }
    rw [harity]
    by_cases hspeed : c = 0x1C
    · subst hspeed
      have hone : parameterCount 0x1C = 1 := by decide
      rw [if_pos rfl, if_pos rfl]
      simp only [hone] at hfetch ⊢
      have hhead :
          (k.winkeyerBuffer.get.2.contents.take 1).headD 0 = k.winkeyerBuffer.get.2.contents.headD 0 := by
        cases k.winkeyerBuffer.get.2.contents <;> rfl
      rw [hhead]
      exact congrArg
        (fun p : Pace F => { p with speed := ((k.winkeyerBuffer.get.2.contents.headD 0).toNat : F) }) hfetch
    · rw [if_neg hspeed, if_neg hclear, if_neg hspeed]
      exact hfetch

theorem consume_fetches_text {k : Keyer F} {c : UInt8} (hc : isWinkeyerCommand c = false)
    (hcons : k.winkeyerBuffer.contents = c :: k.winkeyerBuffer.get.2.contents) :
    Fetch (pace k) (pace (consume c k).2) := by
  have harity := frameArity_text hc
  have hclear : c ≠ 0x0A := by
    rintro rfl
    cases hc
  have hspeed : c ≠ 0x1C := by
    rintro rfl
    cases hc
  refine .take c _ hcons (by rw [harity]; exact Nat.zero_le _) hclear k.winkeyerBuffer.get.2
    (by rw [harity]; rfl)
    (maxSize_get k.winkeyerBuffer) ?_
  have hfetch : pace (emit (.fetched c []) { k with winkeyerBuffer := k.winkeyerBuffer.get.2 }) =
      { pace k with buffer := k.winkeyerBuffer.get.2, log := .take c [] :: (pace k).log } :=
    pace_emit_op (by rfl) _
  rw [harity, if_neg hspeed, consume_text hc]
  dsimp only
  split
  · exact hfetch
  · split
    · exact hfetch
    · exact hfetch

theorem consume_fetches {k : Keyer F} (hne : k.winkeyerBuffer.empty = false)
    (hlen : isWinkeyerCommand k.winkeyerBuffer.peek = true →
      parameterCount k.winkeyerBuffer.peek < k.winkeyerBuffer.size) :
    Fetch (pace k) (pace (consume k.winkeyerBuffer.peek k).2) := by
  obtain ⟨hcons, hsize⟩ := contents_of_peek hne
  generalize k.winkeyerBuffer.peek = c at hcons hlen ⊢
  cases hc : isWinkeyerCommand c with
  | true =>
      have hlt := hlen hc
      exact consume_fetches_command hc hcons (by omega)
  | false => exact consume_fetches_text hc hcons

theorem updateWinkeyer_fetches {a : Answers} (ha : a.Released) {k : Keyer F} (hk : (pace k).latched = false) :
    Fetch (pace k) (pace (updateWinkeyer a k).2) := by
  simp only [updateWinkeyer, pollPaddles_unlatched ha hk, ne_eq, not_true_eq_false, if_false]
  split
  · split
    · exact .same rfl
    split
    · exact .same rfl
    · rename_i hne
      split
      · exact .same rfl
      · rename_i hlen
        refine consume_fetches (k := { k with paddles := .none }) (Bool.eq_false_iff.mpr hne) fun hc => ?_
        rw [hc, Bool.true_and, decide_eq_true_eq, Nat.not_le] at hlen
        exact hlen
  · exact .same rfl

/-- The inversion of one pass. -/
theorem pass_fetches {a : Answers} (ha : a.Released) {k : Keyer F} (hk : (pace k).latched = false) :
    Fetch (pace k) (pace (updatePass a k)) := by
  have hswitch {k' : Keyer F} {next : StateType} (h : Fetch (pace k) (pace k'))
    (hl : (pace k').latched = false) :
      Fetch (pace k) (pace (switchTo a next k')) := by
    rw [pace_switchTo a next hl]
    exact h
  have hupdate (st : StateType) : Fetch (pace k) (pace (stateUpdate a st k).2) := by
    by_cases hst : st = .winkeyer
    · rw [hst]
      exact updateWinkeyer_fetches ha hk
    · exact .same (pace_stateUpdate ha hk hst)
  simp only [updatePass]
  split
  · exact .same rfl
  · rename_i st _
    split
    · exact hupdate st
    · refine hswitch (hupdate st) ?_
      cases hupdate st with
      | same heq | take _ _ _ _ _ _ _ _ heq | reset _ _ _ _ _ heq =>
          rw [heq]
          exact hk

theorem Fetch.latched {p p' : Pace F} (h : Fetch p p') : p'.latched = p.latched := by
  cases h with
  | same heq | take _ _ _ _ _ _ _ _ heq | reset _ _ _ _ _ heq => rw [heq]

/-- What every fetch keeps, a whole call of update keeps. -/
theorem updateLoop_fetches {inv : Pace F → Prop} (hinv : ∀ p p', Fetch p p' → inv p → inv p')
    {passes : List Answers} (hreleased : ∀ a ∈ passes, a.Released) {k : Keyer F}
    (hk : (pace k).latched = false) (h : inv (pace k)) :
    (pace (updateLoop passes k)).latched = false ∧ inv (pace (updateLoop passes k)) := by
  refine updateLoop_invariant (fun k => (pace k).latched = false ∧ inv (pace k)) passes ?_ ⟨hk, h⟩
  rintro a ha k ⟨hk, h⟩
  have hf := pass_fetches (hreleased a ha) hk
  exact ⟨hf.latched.trans hk, hinv _ _ hf h⟩

end

end Cwsd.WinkeyerEffects

import Cwsd.KeyerTransmit
import Mathlib.Data.List.OfFn

namespace Cwsd.TransitionChain

open CharPatterns KeyerState KeyerMachine KeyerFrame KeyerTrack KeyerPass KeyerTransmit KeyLine WinkeyerData Runs

section

variable {F : Type} [SinglePrecision F]

/-- The drain loop with the transitions it makes before a state returns its own type; none when it is cut
short instead. -/
def settle : List Answers → Keyer F → Option (Nat × Keyer F)
  | [], _ => none
  | a :: rest, k =>
      match k.currentState with
      | none => none
      | some st =>
          let (next, k) := stateUpdate a st k
          if next = st then some (0, k) else (settle rest (switchTo a next k)).map fun r => (r.1 + 1, r.2)

theorem settle_updateLoop {as : List Answers} {k k' : Keyer F} {n : Nat} (h : settle as k = some (n, k')) :
    updateLoop as k = k' ∧ n < as.length := by
  induction as generalizing k n with
  | nil => cases h
  | cons a as ih =>
      rw [settle] at h
      rw [updateLoop]
      cases hst : k.currentState with
      | none =>
          rw [hst] at h
          cases h
      | some st =>
          rw [hst] at h
          dsimp only at h ⊢
          by_cases hown : (stateUpdate a st k).1 = st
          · rw [if_pos hown] at h ⊢
            cases h
            exact ⟨rfl, Nat.zero_lt_succ _⟩
          · rw [if_neg hown] at h ⊢
            obtain ⟨⟨m, k''⟩, hrest, heq⟩ := Option.map_eq_some_iff.mp h
            cases heq
            obtain ⟨hloop, hm⟩ := ih hrest
            exact ⟨hloop, Nat.succ_lt_succ hm⟩

/-- Elements are long enough and none of their ends wraps around, in either mode. -/
structure Lengths (now : UInt32) (k : Keyer F) : Prop where
  element : ∀ enabled e, 2 ≤ (weightedElementLengthMs { k with winkeyerEnabled := enabled } e).toNat ∧
    now.toNat + (weightedElementLengthMs { k with winkeyerEnabled := enabled } e).toNat < 2 ^ 32
  word : ∀ enabled, 1 ≤ (interWordSpaceLengthMs { k with winkeyerEnabled := enabled }).toNat ∧
    now.toNat + (interWordSpaceLengthMs { k with winkeyerEnabled := enabled }).toNat < 2 ^ 32

/-- What the lengths are computed from. -/
def settings (k : Keyer F) : Profile F × F := (k.profile, k.winkeyerSpeedWpm)

theorem weightedElementLengthMs_congr {k k' : Keyer F} (h : settings k' = settings k) (enabled : Bool) (e : Element) :
    weightedElementLengthMs { k' with winkeyerEnabled := enabled } e =
      weightedElementLengthMs { k with winkeyerEnabled := enabled } e := by
  obtain ⟨hprofile, hspeed⟩ := Prod.mk.inj h
  simp only [weightedElementLengthMs, elementLengthMs, hprofile, hspeed]

theorem interWordSpaceLengthMs_congr {k k' : Keyer F} (h : settings k' = settings k) (enabled : Bool) :
    interWordSpaceLengthMs { k' with winkeyerEnabled := enabled } =
      interWordSpaceLengthMs { k with winkeyerEnabled := enabled } := by
  obtain ⟨hprofile, hspeed⟩ := Prod.mk.inj h
  simp only [interWordSpaceLengthMs, elementLengthMs, hprofile, hspeed]

theorem Lengths.congr {now : UInt32} {k k' : Keyer F} (h : Lengths now k) (heq : settings k' = settings k) :
    Lengths now k' := by
  constructor
  · intro enabled e
    rw [weightedElementLengthMs_congr heq]
    exact h.element enabled e
  · intro enabled
    rw [interWordSpaceLengthMs_congr heq]
    exact h.word enabled

theorem not_add_le {now d : UInt32} (hpos : 1 ≤ d.toNat) (hroom : now.toNat + d.toNat < 2 ^ 32) :
    ¬ now + d ≤ now := by
  rw [UInt32.le_iff_toNat_le, UInt32.toNat_add]
  omega

def winkeyerRank (now : UInt32) (k : Keyer F) : Nat :=
  (if k.lastSendTime = now then 2 else 6) +
    if k.playingBit ≠ 0 ∨ k.winkeyerInterCharSpacePlayed = true then 0 else 2

def idleRank (now : UInt32) (k : Keyer F) : Nat :=
  if k.ditBuffered || k.dahBuffered then 1 else winkeyerRank now k + 1

def gapRank (now : UInt32) (k : Keyer F) : Nat :=
  if k.winkeyerEnabled then winkeyerRank now k + 1 else idleRank now k + 1

/-- How many transitions a state can still lead to at this clock. A state that waits leads nowhere, and what
is entered at this clock waits: an element and half a gap, and a word space too once the clock is that of
the last sending, where the end of an element or of a word space has set it. -/
def rank (now : UInt32) (k : Keyer F) : StateType → Nat
  | .idle => idleRank now k
  | .keyDown | .tune => idleRank now k + 1
  | .winkeyer => winkeyerRank now k
  | .play => if k.lastSendTime = now then 7 else 11
  | .sendElement => if k.sendTimeToExitState ≤ now then 8 else 0
  | .interElementSpace =>
      if k.interElementTimeToExitState ≤ now then
        if k.winkeyerEnabled then winkeyerRank now k + 1 else idleRank now k + 2
      else 0
  | .interWordSpace => if k.interWordTimeToExit ≤ now then if k.winkeyerEnabled then 5 else 8 else 0
  | .autospace => if k.autospaceTimeToExitState ≤ now then gapRank now k else 0
  | .halfDotGap => if k.halfDotGapTimeToExitState ≤ now then gapRank now k else 0

/-- The rank of a state when it is entered at this clock. -/
def entryRank (now : UInt32) (k : Keyer F) : StateType → Nat
  | .idle => idleRank now k
  | .keyDown | .tune => idleRank now k + 1
  | .winkeyer => winkeyerRank now k
  | .play => if k.lastSendTime = now then 7 else 11
  | .sendElement | .halfDotGap => 0
  | .interElementSpace => if k.winkeyerEnabled then winkeyerRank now k + 1 else idleRank now k + 2
  | .interWordSpace => if k.lastSendTime = now then 0 else if k.winkeyerEnabled then 5 else 8
  | .autospace => gapRank now k

omit [SinglePrecision F] in
theorem winkeyerRank_le (now : UInt32) (k : Keyer F) : winkeyerRank now k ≤ 8 := by
  rw [winkeyerRank]
  split <;> split <;> omega

omit [SinglePrecision F] in
theorem idleRank_le (now : UInt32) (k : Keyer F) : idleRank now k ≤ winkeyerRank now k + 1 := by
  rw [idleRank]
  split <;> omega

omit [SinglePrecision F] in
theorem winkeyerRank_pos (now : UInt32) (k : Keyer F) : 2 ≤ winkeyerRank now k := by
  rw [winkeyerRank]
  split <;> omega

omit [SinglePrecision F] in
theorem winkeyerRank_sent {now : UInt32} {k : Keyer F} (h : k.lastSendTime = now) : winkeyerRank now k ≤ 4 := by
  rw [winkeyerRank, if_pos h]
  split <;> omega

omit [SinglePrecision F] in
theorem rank_lt (now : UInt32) (k : Keyer F) (st : StateType) : rank now k st < 12 := by
  have hw := winkeyerRank_le now k
  have hi := idleRank_le now k
  cases st with
  | idle | keyDown | tune | winkeyer =>
      simp only [rank]
      omega
  | play | sendElement | interElementSpace | interWordSpace =>
      simp only [rank]
      repeat' split
      all_goals omega
  | autospace | halfDotGap =>
      simp only [rank, gapRank]
      repeat' split
      all_goals omega

theorem ite_zero_le (due : Prop) [Decidable due] (n : Nat) : (if due then n else 0) ≤ n := by
  split
  · exact Nat.le_refl n
  · exact Nat.zero_le n

section

variable {now : UInt32} {k : Keyer F}

theorem rank_enterSendElement (h : Lengths now k) :
    rank now (enter (.quiet now) .sendElement k) .sendElement = 0 := by
  obtain ⟨hlong, hroom⟩ := h.element k.winkeyerEnabled k.sentElement
  have hdue : (enterSendElement (.quiet now) k).sendTimeToExitState =
      now + weightedElementLengthMs k k.sentElement := by
    rw [enterSendElement]
    dsimp only
    split <;> rfl
  rw [rank, enter, hdue]
  exact if_neg (not_add_le (Nat.le_of_succ_le hlong) hroom)

theorem rank_enterInterWordSpace (h : Lengths now k) (hsent : k.lastSendTime = now) :
    rank now (enter (.quiet now) .interWordSpace k) .interWordSpace = 0 := by
  obtain ⟨hlong, hroom⟩ := h.word k.winkeyerEnabled
  have hdue : (enter (.quiet now) .interWordSpace k).interWordTimeToExit = now + interWordSpaceLengthMs k := by
    rw [← hsent]
    rfl
  rw [rank, hdue]
  exact if_neg (not_add_le hlong hroom)

/-- Here an element has to be two milliseconds long: one is cut to no gap at all. -/
theorem rank_enterHalfDotGap (h : Lengths now k) :
    rank now (enter (.quiet now) .halfDotGap k) .halfDotGap = 0 := by
  obtain ⟨hlong, hroom⟩ := h.element k.winkeyerEnabled .dit
  have hdue : (enter (.quiet now) .halfDotGap k).halfDotGapTimeToExitState =
      now + weightedElementLengthMs k .dit / 2 := rfl
  have hhalf : (weightedElementLengthMs k .dit / 2).toNat = (weightedElementLengthMs k .dit).toNat / 2 := by
    rw [UInt32.toNat_div]
    rfl
  have hlong' : 1 ≤ (weightedElementLengthMs k .dit / 2).toNat := by
    rw [hhalf]
    exact Nat.div_pos hlong (by decide)
  have hroom' : now.toNat + (weightedElementLengthMs k .dit / 2).toNat < 2 ^ 32 := by
    rw [hhalf]
    exact Nat.lt_of_le_of_lt (Nat.add_le_add_left (Nat.div_le_self _ 2) _) hroom
  rw [rank, hdue]
  exact if_neg (not_add_le hlong' hroom')

theorem rank_enter (h : Lengths now k) (next : StateType) :
    rank now (enter (.quiet now) next k) next ≤ entryRank now k next := by
  cases next with
  | idle | keyDown | tune | play | winkeyer => exact Nat.le_refl _
  | sendElement => exact Nat.le_of_eq (rank_enterSendElement h)
  | interElementSpace | autospace => exact ite_zero_le _ _
  | interWordSpace =>
      by_cases hsent : k.lastSendTime = now
      · rw [rank_enterInterWordSpace h hsent]
        exact Nat.zero_le _
      · rw [entryRank, if_neg hsent]
        exact ite_zero_le _ _
  | halfDotGap => exact Nat.le_of_eq (rank_enterHalfDotGap h)

end

/-- A state stays, or hands over to one that ranks lower on entry. -/
def Lowers (now : UInt32) (k : Keyer F) (st : StateType) (r : StateType × Keyer F) : Prop :=
  r.1 = st ∨ (settings r.2 = settings k ∧ r.2.isPlaying = false ∧
    entryRank now (exit (.quiet now) st r.2) r.1 < rank now k st)

omit [SinglePrecision F] in
theorem lowers_ite {now : UInt32} {k : Keyer F} {st : StateType} {c : Prop} [Decidable c]
    {r r' : StateType × Keyer F} (h : c → Lowers now k st r) (h' : ¬ c → Lowers now k st r') :
    Lowers now k st (if c then r else r') := by
  split
  · exact h ‹_›
  · exact h' ‹_›

omit [SinglePrecision F] in
theorem lowers_to {now : UInt32} {k k' : Keyer F} {st : StateType} (next : StateType)
    (hsettings : settings k' = settings k) (hplaying : k'.isPlaying = false)
    (hrank : entryRank now (exit (.quiet now) st k') next < rank now k st) : Lowers now k st (next, k') :=
  .inr ⟨hsettings, hplaying, hrank⟩

omit [SinglePrecision F] in
theorem pollPaddles_now (now : UInt32) (k : Keyer F) :
    pollPaddles (Answers.quiet now).polled k = { k with paddles := paddleState k.ditBuffered k.dahBuffered } := rfl

omit [SinglePrecision F] in
theorem checkOppositePaddle_now (now : UInt32) (k : Keyer F) : checkOppositePaddle (.quiet now) k = k :=
  checkOppositePaddle_released (Answers.quiet_released now) k

section

variable {now : UInt32} {k : Keyer F}

theorem lowers_idle (hplaying : k.isPlaying = false) : Lowers now k .idle (stateUpdate (.quiet now) .idle k) := by
  have hpos : 0 < idleRank now k := by
    rw [idleRank]
    split <;> omega
  rw [stateUpdate, updateIdle, pollPaddles_now]
  refine lowers_ite (fun _ => lowers_to _ rfl hplaying hpos) fun _ => ?_
  refine lowers_ite (fun _ => lowers_to _ rfl hplaying hpos) fun hreleased => ?_
  refine lowers_ite (fun _ => lowers_to _ rfl hplaying ?_) fun _ => .inl rfl
  rw [rank, idleRank, if_neg hreleased]
  exact Nat.lt_succ_self _

theorem lowers_sendElement (hplaying : k.isPlaying = false) :
    Lowers now k .sendElement (stateUpdate (.quiet now) .sendElement k) := by
  rw [stateUpdate, updateSendElement, checkOppositePaddle_now, ite_self]
  by_cases hdue : k.sendTimeToExitState ≤ now
  · have hsent : (exit (.quiet now) .sendElement k).lastSendTime = now := by
      rw [exit, exitSendElement]
      split <;> rfl
    have hw := winkeyerRank_sent hsent
    have hi := idleRank_le now (exit (.quiet now) .sendElement k)
    have hentry : entryRank now (exit (.quiet now) .sendElement k) .interElementSpace < 8 := by
      rw [entryRank]
      split <;> omega
    refine .inr ⟨rfl, hplaying, ?_⟩
    rw [rank, if_pos hdue]
    exact (congrArg _ (if_pos hdue)).trans_lt hentry
  · exact .inl (if_neg hdue)

theorem lowers_interElementSpace (hplaying : k.isPlaying = false) :
    Lowers now k .interElementSpace (stateUpdate (.quiet now) .interElementSpace k) := by
  rw [stateUpdate, updateInterElementSpace, checkOppositePaddle_now]
  refine lowers_ite (fun hdue => ?_) fun _ => .inl rfl
  have hrank : rank now k .interElementSpace =
      if k.winkeyerEnabled then winkeyerRank now k + 1 else idleRank now k + 2 := if_pos hdue
  refine lowers_ite (fun henabled => ?_) fun hdisabled => ?_
  · refine lowers_to .winkeyer rfl hplaying ?_
    rw [hrank, if_pos henabled]
    exact Nat.lt_succ_self _
  · rw [if_neg (by rw [hplaying]; decide)]
    rw [if_neg hdisabled] at hrank
    have hgap : gapRank now k = idleRank now k + 1 := if_neg hdisabled
    refine lowers_to _ rfl hplaying ?_
    rw [hrank]
    split
    · exact Nat.lt_add_of_pos_right (by decide)
    · exact hgap.trans_lt (Nat.lt_succ_self _)

theorem lowers_interWordSpace (hplaying : k.isPlaying = false) :
    Lowers now k .interWordSpace (stateUpdate (.quiet now) .interWordSpace k) := by
  rw [stateUpdate, updateInterWordSpace, pollPaddles_now]
  refine lowers_ite (fun hdue => ?_) fun _ => .inl rfl
  have hrank : rank now k .interWordSpace = if k.winkeyerEnabled then 5 else 8 := if_pos hdue
  refine lowers_to _ rfl hplaying ?_
  rw [hrank]
  cases k.winkeyerEnabled with
  | true => exact Nat.lt_succ_of_le (winkeyerRank_sent rfl)
  | false => exact (if_pos rfl).trans_lt (show 7 < 8 by decide)

omit [SinglePrecision F] in
theorem entryRank_afterGap (hplaying : k.isPlaying = false) : entryRank now k (afterGap k) < gapRank now k := by
  rw [afterGap, gapRank, hplaying]
  cases k.winkeyerEnabled with
  | true => exact Nat.lt_succ_self _
  | false => exact Nat.lt_succ_self _

theorem lowers_autospace (hplaying : k.isPlaying = false) :
    Lowers now k .autospace (stateUpdate (.quiet now) .autospace k) := by
  by_cases hdue : k.autospaceTimeToExitState ≤ now
  · refine .inr ⟨rfl, hplaying, ?_⟩
    rw [rank, if_pos hdue]
    exact (congrArg _ (if_pos hdue)).trans_lt (entryRank_afterGap hplaying)
  · exact .inl (if_neg hdue)

theorem lowers_halfDotGap (hplaying : k.isPlaying = false) :
    Lowers now k .halfDotGap (stateUpdate (.quiet now) .halfDotGap k) := by
  by_cases hdue : k.halfDotGapTimeToExitState ≤ now
  · refine .inr ⟨rfl, hplaying, ?_⟩
    rw [rank, if_pos hdue]
    exact (congrArg _ (if_pos hdue)).trans_lt (entryRank_afterGap hplaying)
  · exact .inl (if_neg hdue)

theorem lowers_consume (c : UInt8) (hplaying : k.isPlaying = false) (henabled : k.winkeyerEnabled = true) :
    Lowers now k .winkeyer (consume c k) := by
  have hpos := winkeyerRank_pos now k
  rw [consume]
  refine lowers_ite (fun _ => .inl rfl) fun _ => ?_
  refine lowers_ite (fun _ => lowers_to _ rfl hplaying (Nat.lt_of_succ_lt hpos)) fun _ => ?_
  cases getCharPattern c with
  | some p => exact lowers_to .sendElement rfl hplaying (Nat.lt_of_succ_lt hpos)
  | none =>
      refine lowers_to .interWordSpace rfl hplaying ?_
      rw [rank, winkeyerRank]
      by_cases hsent : k.lastSendTime = now
      · rw [if_pos hsent]
        exact (if_pos hsent).trans_lt (by omega)
      · rw [if_neg hsent]
        refine ((if_neg hsent).trans (if_pos henabled)).trans_lt (by omega)

omit [SinglePrecision F] in
theorem latched_of_paddleState {dit dah : Bool} (h : paddleState dit dah ≠ .none) : (dit || dah) = true := by
  revert h
  cases dit <;> cases dah <;> decide

theorem lowers_winkeyer (hplaying : k.isPlaying = false) (henabled : k.winkeyerEnabled = true) :
    Lowers now k .winkeyer (stateUpdate (.quiet now) .winkeyer k) := by
  have hpos := winkeyerRank_pos now k
  rw [stateUpdate, updateWinkeyer, pollPaddles_now]
  refine lowers_ite (fun hpressed => ?_) fun _ => ?_
  · exact lowers_to .idle rfl hplaying ((if_pos (latched_of_paddleState hpressed)).trans_lt hpos)
  refine lowers_ite (fun hbit => ?_) fun _ => lowers_to .sendElement rfl hplaying (Nat.lt_of_succ_lt hpos)
  refine lowers_ite (fun hplayed => ?_) fun _ => ?_
  · -- The gap before the letter is waited for only once: the flag that asks for it is taken back.
    have hbit' : k.playingBit = 0 := hbit
    have hplayed' : k.winkeyerInterCharSpacePlayed = false := (Bool.not_eq_true' _).mp hplayed
    have hgap : gapRank now { k with winkeyerInterCharSpacePlayed := true } < winkeyerRank now k := by
      have hasked : ¬ (k.playingBit ≠ 0 ∨ k.winkeyerInterCharSpacePlayed = true) := by
        rw [hbit', hplayed']
        decide
      rw [winkeyerRank, if_neg hasked]
      refine (if_pos henabled).trans_lt ?_
      rw [winkeyerRank, if_pos (Or.inr rfl)]
      exact Nat.lt_succ_self _
    exact lowers_to .autospace rfl hplaying hgap
  refine lowers_ite (fun _ => .inl rfl) fun _ => ?_
  refine lowers_ite (fun _ => .inl rfl) fun _ => ?_
  exact lowers_consume (k := { k with paddles := paddleState k.ditBuffered k.dahBuffered }) _ hplaying henabled

theorem lowers_play (hplaying : k.isPlaying = false) : Lowers now k .play (stateUpdate (.quiet now) .play k) := by
  have hrank : winkeyerRank now k + 2 < rank now k .play := by
    rw [rank, winkeyerRank]
    split <;> split <;> omega
  have hi := idleRank_le now k
  have hgap : gapRank now k ≤ winkeyerRank now k + 2 := by
    rw [gapRank]
    split <;> omega
  rw [stateUpdate, updatePlay]
  refine lowers_ite (fun _ => ?_) fun _ => lowers_to .sendElement rfl hplaying (Nat.zero_lt_of_lt hrank)
  refine lowers_ite (fun _ => lowers_to .autospace rfl hplaying (hgap.trans_lt hrank)) fun _ => ?_
  refine lowers_ite (fun _ => lowers_to .idle rfl rfl ?_) fun _ => ?_
  · exact (show idleRank now k < rank now k .play by omega)
  · cases getCharPattern (memoryAt k k.playingSlot k.playingCharIndex.toNat) with
    | some p => exact lowers_to .sendElement rfl hplaying (Nat.zero_lt_of_lt hrank)
    | none =>
        refine lowers_to .interWordSpace rfl hplaying ?_
        have hentry : entryRank now k .interWordSpace < rank now k .play := by
          rw [entryRank, rank]
          repeat' split
          all_goals omega
        exact hentry

/-- The step of the loop. Only where the winkeyer state has lost its flag could spaces lead from one to another. -/
theorem stateUpdate_lowers (st : StateType) (hplaying : k.isPlaying = false)
    (henabled : st = .winkeyer → k.winkeyerEnabled = true) : Lowers now k st (stateUpdate (.quiet now) st k) := by
  cases st with
  | idle => exact lowers_idle hplaying
  | sendElement => exact lowers_sendElement hplaying
  | keyDown | tune => exact lowers_to .idle rfl hplaying (Nat.lt_succ_self _)
  | interElementSpace => exact lowers_interElementSpace hplaying
  | interWordSpace => exact lowers_interWordSpace hplaying
  | play => exact lowers_play hplaying
  | autospace => exact lowers_autospace hplaying
  | winkeyer => exact lowers_winkeyer hplaying (henabled rfl)
  | halfDotGap => exact lowers_halfDotGap hplaying

omit [SinglePrecision F] in
theorem exit_frame (a : Answers) (st : StateType) (k : Keyer F) :
    settings (exit a st k) = settings k ∧ (exit a st k).isPlaying = k.isPlaying := by
  cases st with
  | sendElement =>
      rw [exit, exitSendElement]
      split <;> exact ⟨rfl, rfl⟩
  | _ => exact ⟨rfl, rfl⟩

theorem enter_frame (a : Answers) (next : StateType) (k : Keyer F) :
    settings (enter a next k) = settings k ∧ (enter a next k).isPlaying = k.isPlaying ∧
      (enter a next k).currentState = k.currentState := by
  cases next with
  | sendElement =>
      rw [enter, enterSendElement]
      split <;> exact ⟨rfl, rfl, rfl⟩
  | _ => exact ⟨rfl, rfl, rfl⟩

/-- A state that is entered on the way ranks no higher than told, and nothing a run rests on is lost. -/
theorem switchTo_lowers {st next : StateType} (hst : k.currentState = some st) (hne : next ≠ st)
    (hlengths : Lengths now k) :
    (switchTo (.quiet now) next k).currentState = some next ∧
      settings (switchTo (.quiet now) next k) = settings k ∧
      (switchTo (.quiet now) next k).isPlaying = k.isPlaying ∧
      (next = .winkeyer → (switchTo (.quiet now) next k).winkeyerEnabled = true) ∧
      rank now (switchTo (.quiet now) next k) next ≤ entryRank now (exit (.quiet now) st k) next := by
  obtain ⟨hexit, hexitPlaying⟩ := exit_frame (.quiet now) st k
  rw [switchTo_eq hst hne]
  generalize hentered : emit (.entered next (exit (.quiet now) st k).sentElement)
    { exit (.quiet now) st k with currentState := some next } = entered
  have hstate : entered.currentState = some next := by
    rw [← hentered]
    rfl
  have hsettings : settings entered = settings k := by
    rw [← hentered]
    exact hexit
  have hplaying : entered.isPlaying = k.isPlaying := by
    rw [← hentered]
    exact hexitPlaying
  have hentry : entryRank now entered next = entryRank now (exit (.quiet now) st k) next := by
    rw [← hentered]
    rfl
  obtain ⟨hframe, hframePlaying, hframeState⟩ := enter_frame (.quiet now) next entered
  refine ⟨hframeState.trans hstate, hframe.trans hsettings, hframePlaying.trans hplaying, ?_, ?_⟩
  · intro hwinkeyer
    rw [hwinkeyer]
    rfl
  · rw [← hentry]
    exact rank_enter (hlengths.congr hsettings) next

theorem settle_of_rank (n : Nat) {st : StateType} (hst : k.currentState = some st) (hplaying : k.isPlaying = false)
    (henabled : st = .winkeyer → k.winkeyerEnabled = true) (hlengths : Lengths now k) (hrank : rank now k st < n) :
    ∃ r, settle (List.replicate n (.quiet now)) k = some r := by
  induction n generalizing k st with
  | zero => exact absurd hrank (Nat.not_lt_zero _)
  | succ n ih =>
      rw [List.replicate_succ, settle, hst]
      dsimp only
      rcases stateUpdate_lowers st hplaying henabled with hown | ⟨hsettings, hplaying', hentry⟩
      · exact ⟨_, if_pos hown⟩
      by_cases hown : (stateUpdate (.quiet now) st k).1 = st
      · exact ⟨_, if_pos hown⟩
      generalize hnext : (stateUpdate (.quiet now) st k).1 = next at *
      generalize hleft : (stateUpdate (.quiet now) st k).2 = k' at *
      have hst' : k'.currentState = some st := by
        rw [← hleft]
        exact (aside_stateUpdate (.quiet now) st k).state.trans hst
      obtain ⟨hstate, hframe, hframePlaying, henabled', hle⟩ := switchTo_lowers hst' hown (hlengths.congr hsettings)
      have hrank' : rank now (switchTo (.quiet now) next k') next < n :=
        Nat.lt_of_lt_of_le (hle.trans_lt hentry) (Nat.le_of_lt_succ hrank)
      obtain ⟨r, hr⟩ := ih hstate (hframePlaying.trans hplaying') henabled'
        (hlengths.congr (hframe.trans hsettings)) hrank'
      rw [if_neg hown, hr]
      exact ⟨(r.1 + 1, r.2), rfl⟩

end

/-- The keyer has been started, and the winkeyer state never runs without its flag. -/
structure Started (k : Keyer F) : Prop where
  state : ∃ st, k.currentState = some st
  enabled : k.currentState = some .winkeyer → k.winkeyerEnabled = true

/-- What a run has to know of the state and the flag. -/
def mode (k : Keyer F) : Option StateType × Bool := (k.currentState, k.winkeyerEnabled)

omit [SinglePrecision F] in
theorem Started.congr {k k' : Keyer F} (h : Started k) (heq : mode k' = mode k) : Started k' := by
  obtain ⟨hstate, henabled⟩ := Prod.mk.inj heq
  refine ⟨?_, ?_⟩
  · rw [hstate]
    exact h.state
  · rw [hstate, henabled]
    exact h.enabled

theorem started_switchTo (a : Answers) (next : StateType) {k : Keyer F} {st : StateType}
    (hst : k.currentState = some st) (hne : next ≠ st) : Started (switchTo a next k) := by
  rw [switchTo_eq hst hne]
  obtain ⟨-, -, hstate⟩ := enter_frame a next
    (emit (.entered next (exit a st k).sentElement) { exit a st k with currentState := some next })
  refine ⟨⟨next, hstate⟩, ?_⟩
  intro hwinkeyer
  rw [hstate] at hwinkeyer
  cases hwinkeyer
  rfl

theorem enabled_executeBuffered (c : UInt8) (arguments : List UInt8) (k : Keyer F) :
    (executeBuffered c arguments k).winkeyerEnabled = k.winkeyerEnabled := by
  rw [executeBuffered]
  split
  · rfl
  split <;> rfl

theorem enabled_consume (c : UInt8) (k : Keyer F) : (consume c k).2.winkeyerEnabled = k.winkeyerEnabled := by
  rw [consume]
  dsimp only
  split
  · exact enabled_executeBuffered _ _ _
  split
  · rfl
  split <;> rfl

omit [SinglePrecision F] in
theorem enabled_pollPaddles (polled : PaddleSide → Bool) (k : Keyer F) :
    (pollPaddles polled k).winkeyerEnabled = k.winkeyerEnabled := by
  rw [pollPaddles_eq]

/-- Only a paddle takes the flag away from the winkeyer state, and then the state is left. -/
theorem enabled_updateWinkeyer (a : Answers) {k : Keyer F} (h : (updateWinkeyer a k).1 = .winkeyer) :
    (updateWinkeyer a k).2.winkeyerEnabled = k.winkeyerEnabled := by
  have hpoll := enabled_pollPaddles a.polled k
  rw [updateWinkeyer] at h ⊢
  dsimp only at h ⊢
  by_cases hpressed : (pollPaddles a.polled k).paddles ≠ .none
  · rw [if_pos hpressed] at h
    cases h
  rw [if_neg hpressed]
  split
  · split
    · exact hpoll
    split
    · exact hpoll
    split
    · exact hpoll
    · exact (enabled_consume _ _).trans hpoll
  · exact hpoll

theorem started_pass (a : Answers) {k : Keyer F} (h : Started k) : Started (updatePass a k) := by
  obtain ⟨st, hst⟩ := h.state
  have hkept := (aside_stateUpdate a st k).state.trans hst
  by_cases hown : (stateUpdate a st k).1 = st
  · rw [pass_stay hst hown]
    refine ⟨⟨st, hkept⟩, ?_⟩
    intro hwinkeyer
    rw [hkept] at hwinkeyer
    cases hwinkeyer
    exact (enabled_updateWinkeyer a hown).trans (h.enabled hst)
  · rw [pass_move hst rfl hown]
    exact started_switchTo a _ hkept hown

theorem started_idle (a : Answers) (k : Keyer F) : Started (switchTo a .idle k) := by
  cases hst : k.currentState with
  | none =>
      rw [switchTo, hst]
      exact ⟨⟨.idle, rfl⟩, fun h => by cases h⟩
  | some st =>
      by_cases hidle : StateType.idle = st
      · rw [← hidle] at hst
        rw [switchTo_self a hst]
        refine ⟨⟨.idle, hst⟩, ?_⟩
        intro hwinkeyer
        rw [hst] at hwinkeyer
        cases hwinkeyer
      · exact started_switchTo a .idle hst hidle

theorem started_startPlaying (a : Answers) (slot : UInt8) {k : Keyer F} (h : Started k) :
    Started (startPlaying a slot k) := by
  obtain ⟨st, hst⟩ := h.state
  rw [startPlaying]
  generalize hk : ({ k with
    isPlaying := true, playingSlot := slot, playingCharIndex := 0, playingBit := 0 } : Keyer F) = k'
  have hmode : mode k' = mode k := by
    rw [← hk]
    rfl
  have hst' : k'.currentState = some st := (Prod.mk.inj hmode).1.trans hst
  have hswitched : Started (switchTo a .play k') := by
    by_cases hplay : StateType.play = st
    · rw [← hplay] at hst'
      rw [switchTo_self a hst']
      exact h.congr hmode
    · exact started_switchTo a .play hst' hplay
  exact hswitched.congr rfl

omit [SinglePrecision F] in
theorem mode_setMemory (slot : UInt8) (content : List UInt8) (k : Keyer F) :
    mode (setMemory slot content k) = mode k := by
  obtain ⟨m, hm⟩ := setMemory_memory slot content k
  rw [hm]
  rfl

omit [SinglePrecision F] in
theorem mode_stopRecording (k : Keyer F) : mode (stopRecording k) = mode k := by
  obtain ⟨m, hm⟩ := stopRecording_memory k
  rw [hm]
  rfl

theorem started_step {k k' : Keyer F} {act : Action} (h : Started k) (hs : step k act = some k') : Started k' := by
  cases act with
  | data c =>
      cases hs
      exact h.congr (winkeyerData_frame mode (fun _ _ _ _ _ _ => rfl) (fun _ _ _ _ => rfl) (fun _ _ _ => rfl) c k)
  | tick hardware =>
      cases hs
      exact update_invariant Started hardware (fun i _ hk => started_pass (hardware i) hk) h
  | startPlaying a slot =>
      cases hs
      exact started_startPlaying a slot h
  | stopPlaying | startRecording =>
      cases hs
      exact h.congr rfl
  | stopRecording =>
      cases hs
      exact h.congr (mode_stopRecording k)
  | setMemory slot content =>
      cases hs
      exact h.congr (mode_setMemory slot content k)

/-- At a clock that stands still, a tick without paddles and without a memory that plays ends because a state
returns its own type, and the cap never cuts it short: whatever the calls before it and the buffer. -/
theorem update_settles (a : Answers) (k₀ : Keyer F) (acts : List Action) (k : Keyer F)
    (hrun : Run step (fun _ _ => True) (init a k₀) acts k) (hplaying : k.isPlaying = false) (now : UInt32)
    (hlengths : Lengths now k) :
    ∃ transitions k', settle (List.ofFn fun _ : Fin maxTransitionsPerTick => .quiet now) k = some (transitions, k') ∧
      transitions < maxTransitionsPerTick ∧ update (fun _ => .quiet now) k = k' := by
  have hstarted : Started k := hrun.invariant Started (started_idle a _) fun _ _ _ hk _ hs => started_step hk hs
  obtain ⟨st, hst⟩ := hstarted.state
  have hrank : rank now k st < maxTransitionsPerTick := (rank_lt now k st).trans (by decide)
  have henabled : st = .winkeyer → k.winkeyerEnabled = true := fun h => hstarted.enabled (h ▸ hst)
  obtain ⟨⟨transitions, k'⟩, hsettle⟩ :=
    settle_of_rank maxTransitionsPerTick hst hplaying henabled hlengths hrank
  rw [← List.ofFn_const] at hsettle
  obtain ⟨hupdate, hless⟩ := settle_updateLoop hsettle
  exact ⟨transitions, k', hsettle, hless, hupdate⟩

end

def oneLetter : Keyer ℚ := winkeyerData 0x45 (init (.quiet 0) Keyer.zero)

theorem oneLetter_lengths : Lengths 1000 oneLetter where
  element enabled e := by cases enabled <;> cases e <;> decide +kernel
  word enabled := by cases enabled <;> decide +kernel

theorem oneLetter_settles : ∃ transitions k',
    settle (List.ofFn fun _ : Fin maxTransitionsPerTick => .quiet 1000) oneLetter = some (transitions, k') ∧
      transitions < maxTransitionsPerTick ∧ update (fun _ => .quiet 1000) oneLetter = k' := by
  have hrun : Run step (fun _ _ => True) (init (.quiet 0) Keyer.zero) [.data 0x45] oneLetter :=
    Run.head trivial rfl .start
  exact update_settles (.quiet 0) Keyer.zero [.data 0x45] oneLetter hrun rfl 1000 oneLetter_lengths

end Cwsd.TransitionChain

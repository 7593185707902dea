import Cwsd.ServiceSteps

namespace Cwsd.Abort

open KeyerState KeyerMachine KeyerTrack KeyerPass CwDaemon UdpServer CwdaemonServer WinkeyerData WinkeyerFeed
open KeyLine KeyRelease Runs WinkeyerEffects MessageEffects ServiceSteps

def isImmediate : Event → Bool
  | .keyDown .immediate | .keyUp .immediate => true
  | _ => false

def CarrierOff (l : Line) : Prop := l.calls.find? isImmediate ≠ some (.keyDown .immediate)

theorem answerable_carrierOff : Answerable CarrierOff :=
  ⟨fun _ _ h => h, fun l calls h => by simp [CarrierOff, h, isImmediate]⟩

section

variable {F : Type}

theorem carrierOff_trace (k : Keyer F) :
    CarrierOff (line k) ↔ k.trace.find? isImmediate ≠ some (.keyDown .immediate) := by
  have hkey (e : Event) (he : isImmediate e = true) : isKeyCall e = true := by
    cases e <;> first | rfl | cases he
  have hfind : (k.trace.filter isKeyCall).find? isImmediate = k.trace.find? isImmediate := by
    rw [List.find?_filter]
    congr 1
    funext e
    cases he : isImmediate e with
    | false => simp
    | true => simp [hkey e he]
  rw [CarrierOff, line, hfind]

variable [SinglePrecision F] {char : CharType}

theorem carrierOff_pass (a : Answers) (k : Keyer F) (h : CarrierOff (line k)) :
    CarrierOff (line (updatePass a k)) := by
  rcases line_pass a k with heq | ⟨st, next, -, -, heq⟩
  · exact heq ▸ h
  · have hfind :
        (transitionCalls st next ++ (line k).calls).find? isImmediate = (line k).calls.find? isImmediate := by
      rw [transitionCalls]
      split <;> split <;> rfl
    rw [heq, CarrierOff, hfind]
    exact h

theorem sending_winkeyerData (c : UInt8) {k : Keyer F} (h : Sending (track k)) :
    Sending (track (winkeyerData c k)) := by
  have hframe := winkeyerData_frame
    (fun k : Keyer F => (k.ditBuffered, k.dahBuffered, k.isPlaying, k.winkeyerEnabled, k.currentState))
    (fun _ _ _ _ _ _ => rfl) (fun _ _ _ _ => rfl) (fun _ _ _ => rfl) c k
  simp only [Prod.mk.injEq] at hframe
  obtain ⟨hdit, hdah, hplay, henabled, hstate⟩ := hframe
  refine ⟨hdit.trans h.dit, hdah.trans h.dah, hplay.trans h.notPlaying, ?_⟩
  have henabled' : (track (winkeyerData c k)).enabled = (track k).enabled := henabled
  have hstate' : (track (winkeyerData c k)).state = (track k).state := hstate
  rw [hstate', henabled']
  exact h.state

/-- What holds of every reachable state: the keyer sends from its buffer, and client_worker accounts
for the carrier. -/
structure Reached (s : Service F) : Prop where
  sending : Sending (track s.keyer)
  manned : s.client = .returned ∨ Manned CarrierOff s

theorem reached_start (a : Readings) (initialWpm : UInt8) : Reached (start a initialWpm : Service F) := by
  have hinit : Sending (track (init (keyInterface a) (Keyer.zero : Keyer F))) := ⟨rfl, rfl, rfl, .inl rfl⟩
  refine ⟨sending_winkeyerData _ (sending_winkeyerData _ hinit),
    .inr (manned_start answerable_carrierOff a initialWpm ?_)⟩
  rw [line_init]
  nofun

theorem sending_step {act : Action} {s s' : Service F} (h : Sending (track s.keyer))
    (hs : step char s act = some s') : Sending (track s'.keyer) := by
  cases advance_of_step hs with
  | quiet _ hkeyer _ | carrier _ hkeyer _ _ | message _ _ _ _ _ hkeyer _ =>
      rw [hkeyer]
      exact h
  | byte _ _ _ c _ _ hkeyer _ =>
      rw [hkeyer]
      exact sending_winkeyerData c h
  | tick _ hardware hkeyer _ =>
      rw [hkeyer]
      exact update_invariant (fun k => Sending (track k)) _
        (fun i k hk => sending_pass (keyInterface_released _) hk) h

theorem returned_of_clientReturns {input : Input} {s s' : Service F} (h : ClientReturns input s)
    (hs : clientStep char input s = .ok s') : s'.client = .returned := by
  rcases h with ⟨hpc, hrun⟩ | ⟨hpc, hexit⟩
  · simp only [clientStep, hpc, hrun] at hs
    cases hs
    rfl
  · cases hm : receive input.arrived with
    | none =>
        rw [hm] at hexit
        cases hexit
    | some message =>
        rw [hm, Option.any_some] at hexit
        rw [clientStep_receiving char hpc hm, handleMessage, if_pos hexit] at hs
        cases hs
        rfl

theorem reached_step {act : Action} {s s' : Service F} (h : Reached s)
    (hs : step char s act = some s') : Reached s' := by
  refine ⟨sending_step h.sending hs, ?_⟩
  cases act with
  | client input =>
      have hclient := step_client hs
      rcases h.manned with hret | hmanned
      · simp only [clientStep, hret] at hclient
        cases hclient
        exact .inl hret
      · by_cases hreturns : ClientReturns input s
        · exact .inl (returned_of_clientReturns hreturns hclient)
        · exact .inr (manned_client answerable_carrierOff hmanned (fun hr => absurd hr hreturns) hclient)
  | keyer hardware =>
      cases hs
      have hclient := (keyerStep_frame hardware s).2.2
      rw [hclient]
      refine h.manned.imp_right fun hmanned => ?_
      simp only [keyerStep]
      split
      · exact ⟨hmanned.boundary, hmanned.accounted⟩
      · obtain ⟨hb, hacc⟩ := manned_update carrierOff_pass (fun i => keyInterface (hardware i)) hmanned
        exact ⟨hb, hacc⟩
      · exact hmanned
  | stop =>
      cases hs
      exact h.manned.imp_right fun hmanned => ⟨hmanned.boundary, hmanned.accounted⟩

def Silent : Action → Prop
  | .client input => receive input.arrived = none
  | .keyer _ | .stop => True

instance (act : Action) : Decidable (Silent act) :=
  match act with
  | .client input => inferInstanceAs (Decidable (receive input.arrived = none))
  | .keyer _ | .stop => inferInstanceAs (Decidable True)

/-- The bytes that are left neither touch the buffer nor key, the worker will feed no others, the
carrier is off and the buffer is empty. -/
structure Quiet (u : Service F) : Prop where
  tuning : u.isTuning = false ∨ ∃ bytes, u.client = .endTuning bytes
  effects : effects (toFeed u.client) (parser u.keyer) = []
  keys : (parser u.keyer).keysAll (toFeed u.client) = []
  carrier : CarrierOff (line u.keyer)
  buffer : u.keyer.winkeyerBuffer.contents = []

/-- How far the abort has got: the buffer is about to be cleared, the carrier is about to be
switched off, or it is done. -/
inductive Stage (u : Service F) : Prop
  | clearing (hpc : u.client = .feeding [0x0A]) (htune : u.isTuning = false) (hready : Ready (parser u.keyer))
      (hoff : CarrierOff (line u.keyer))
  | releasing (bytes : List UInt8) (hpc : u.client = .endTuning bytes)
      (heffects : effects bytes (parser u.keyer) = [])
      (hkeys : (parser u.keyer).keysAll bytes = [.keyUp .immediate])
      (hempty : u.keyer.winkeyerBuffer.contents = [])
  | finished (hquiet : Quiet u)

theorem fetch_empty {p p' : Pace F} (h : Fetch p p') (hempty : p.buffer.contents = []) : p' = p := by
  cases h with
  | same heq => exact heq
  | take _ _ hbuf | reset _ hbuf =>
      rw [hempty] at hbuf
      cases hbuf

theorem contents_update (hardware : Fin maxTransitionsPerTick → Readings) {k : Keyer F}
    (hk : (pace k).latched = false) (hempty : k.winkeyerBuffer.contents = []) :
    (update (fun i => keyInterface (hardware i)) k).winkeyerBuffer.contents = [] := by
  refine (update_fetches (fun p => p.buffer.contents = []) ?_ hardware hk hempty).2
  intro p p' hf hp
  rw [fetch_empty hf hp, hp]

omit [SinglePrecision F] in
theorem unlatched_of_sending {k : Keyer F} (h : Sending (track k)) : (pace k).latched = false :=
  Bool.or_eq_false_iff.mpr ⟨h.dit, h.dah⟩

theorem carrierOff_update (hardware : Fin maxTransitionsPerTick → Readings) {k : Keyer F}
    (h : CarrierOff (line k)) :
    CarrierOff (line (update (fun i => keyInterface (hardware i)) k)) :=
  update_invariant (fun k => CarrierOff (line k)) _ (fun _ k => carrierOff_pass _ k) h

theorem quiet_update (hardware : Fin maxTransitionsPerTick → Readings) {u : Service F} (h : Quiet u)
    (hs : Sending (track u.keyer)) :
    Quiet { u with keyer := update (fun i => keyInterface (hardware i)) u.keyer } := by
  have hparser : parser (update (fun i => keyInterface (hardware i)) u.keyer) = parser u.keyer :=
    parser_update _ u.keyer
  refine ⟨h.tuning, ?_, ?_, carrierOff_update hardware h.carrier, ?_⟩
  · rw [hparser]
    exact h.effects
  · rw [hparser]
    exact h.keys
  · exact contents_update hardware (unlatched_of_sending hs) h.buffer

theorem stage_update (hardware : Fin maxTransitionsPerTick → Readings) {u : Service F} (h : Stage u)
    (hs : Sending (track u.keyer)) :
    Stage { u with keyer := update (fun i => keyInterface (hardware i)) u.keyer } := by
  have hparser : parser (update (fun i => keyInterface (hardware i)) u.keyer) = parser u.keyer :=
    parser_update _ u.keyer
  cases h with
  | clearing hpc htune hready hoff =>
      refine .clearing hpc htune ?_ (carrierOff_update hardware hoff)
      rw [hparser]
      exact hready
  | releasing bytes hpc heffects hkeys hempty =>
      refine .releasing bytes hpc ?_ ?_ (contents_update hardware (unlatched_of_sending hs) hempty)
      · rw [hparser]
        exact heffects
      · rw [hparser]
        exact hkeys
  | finished hquiet => exact .finished (quiet_update hardware hquiet hs)

theorem contents_winkeyerData {c : UInt8} {k : Keyer F} (h : effect c (parser k) = []) :
    (winkeyerData c k).winkeyerBuffer = k.winkeyerBuffer := by
  have hpace := pace_winkeyerData c k
  rw [h] at hpace
  exact congrArg Pace.buffer hpace

theorem silent_byte {c : UInt8} {bytes : List UInt8} {k : Keyer F}
    (heffects : effects (c :: bytes) (parser k) = []) (hkeys : (parser k).keysAll (c :: bytes) = [])
    (hoff : CarrierOff (line k)) (hempty : k.winkeyerBuffer.contents = []) :
    effects bytes (parser (winkeyerData c k)) = [] ∧ (parser (winkeyerData c k)).keysAll bytes = [] ∧
      CarrierOff (line (winkeyerData c k)) ∧ (winkeyerData c k).winkeyerBuffer.contents = [] := by
  obtain ⟨heffect, hrest⟩ := List.append_eq_nil_iff.mp heffects
  obtain ⟨hoff', hkeys'⟩ := answerable_carrierOff.silent hoff hkeys
  refine ⟨by rw [parser_winkeyerData]; exact hrest, hkeys', hoff', ?_⟩
  rw [contents_winkeyerData heffect]
  exact hempty

theorem stage_clearing {k : Keyer F} (hready : Ready (parser k)) (hoff : CarrierOff (line k)) :
    CarrierOff (line (winkeyerData 0x0A k)) ∧ (winkeyerData 0x0A k).winkeyerBuffer.contents = [] := by
  have hkeys : (line k).parser.keysAll [0x0A] = [] := (balanced_clear (parser k) hready.1).2
  have heffect : effect 0x0A (parser k) = [.clear] :=
    (List.append_nil _).symm.trans (emits_clear (parser k) hready).2
  have hpace := pace_winkeyerData 0x0A k
  rw [heffect] at hpace
  have hbuffer : (winkeyerData 0x0A k).winkeyerBuffer = k.winkeyerBuffer.reset := congrArg Pace.buffer hpace
  refine ⟨(answerable_carrierOff.silent hoff hkeys).1, ?_⟩
  rw [hbuffer]
  exact CircularBuffer.contents_reset _

theorem stage_releasing {c : UInt8} {bytes : List UInt8} {u : Service F}
    (heffects : effects (c :: bytes) (parser u.keyer) = [])
    (hkeys : (parser u.keyer).keysAll (c :: bytes) = [.keyUp .immediate])
    (hempty : u.keyer.winkeyerBuffer.contents = []) :
    Stage { u with keyer := winkeyerData c u.keyer, client := .endTuning bytes } := by
  obtain ⟨heffect, hrest⟩ := List.append_eq_nil_iff.mp heffects
  rw [← parser_winkeyerData] at hrest
  have hempty' : (winkeyerData c u.keyer).winkeyerBuffer.contents = [] := by
    rw [contents_winkeyerData heffect]
    exact hempty
  rcases answerable_carrierOff.closing hkeys with ⟨hoff, hkeys⟩ | hkeys
  · exact .finished ⟨.inr ⟨bytes, rfl⟩, hrest, hkeys, hoff, hempty'⟩
  · exact .releasing bytes rfl hrest hkeys hempty'

theorem quiet_client {input : Input} {u u' : Service F} (h : Quiet u)
    (hsilent : receive input.arrived = none) (hs : clientStep char input u = .ok u') : Quiet u' := by
  obtain ⟨htune, heffects, hkeys, hoff, hempty⟩ := h
  have hoffTune (hnot : ∀ bytes, u.client ≠ .endTuning bytes) : u.isTuning = false :=
    htune.resolve_right fun ⟨bytes, hpc⟩ => hnot bytes hpc
  cases hpc : u.client with
  | loop =>
      have htune := hoffTune (by simp [hpc])
      simp only [clientStep, hpc] at hs
      cases hs
      cases u.isRunning with
      | true | false => exact ⟨.inl htune, rfl, rfl, hoff, hempty⟩
  | receiving =>
      have htune := hoffTune (by simp [hpc])
      simp only [clientStep, hpc, hsilent] at hs
      cases hs
      exact ⟨.inl htune, rfl, rfl, hoff, hempty⟩
  | feeding bytes =>
      have htune := hoffTune (by simp [hpc])
      rw [hpc] at heffects hkeys
      cases bytes with
      | nil =>
          simp only [clientStep, hpc] at hs
          cases hs
          exact ⟨.inl htune, rfl, rfl, hoff, hempty⟩
      | cons c bytes =>
          obtain ⟨heffects', hkeys', hoff', hempty'⟩ := silent_byte heffects hkeys hoff hempty
          simp only [clientStep, hpc] at hs
          cases hs
          exact ⟨.inl htune, heffects', hkeys', hoff', hempty'⟩
  | polling =>
      have htune := hoffTune (by simp [hpc])
      simp only [clientStep, hpc, htune, Bool.false_and, Bool.false_eq_true, if_false] at hs
      cases hs
      exact ⟨.inl rfl, rfl, rfl, hoff, hempty⟩
  | endTuning bytes =>
      rw [hpc] at heffects hkeys
      cases bytes with
      | nil =>
          simp only [clientStep, hpc] at hs
          cases hs
          exact ⟨.inl rfl, rfl, rfl, hoff, hempty⟩
      | cons c bytes =>
          obtain ⟨heffects', hkeys', hoff', hempty'⟩ := silent_byte heffects hkeys hoff hempty
          simp only [clientStep, hpc] at hs
          cases hs
          exact ⟨.inr ⟨bytes, rfl⟩, heffects', hkeys', hoff', hempty'⟩
  | returned =>
      simp only [clientStep, hpc] at hs
      cases hs
      exact ⟨htune, heffects, hkeys, hoff, hempty⟩

theorem stage_client {input : Input} {u u' : Service F} (h : Stage u)
    (hsilent : receive input.arrived = none) (hs : clientStep char input u = .ok u') : Stage u' := by
  cases h with
  | clearing hpc htune hready hoff =>
      obtain ⟨hoff', hempty⟩ := stage_clearing hready hoff
      simp only [clientStep, hpc] at hs
      cases hs
      exact .finished ⟨.inl htune, rfl, rfl, hoff', hempty⟩
  | releasing bytes hpc heffects hkeys hempty =>
      cases bytes with
      | nil => cases hkeys
      | cons c bytes =>
          simp only [clientStep, hpc] at hs
          cases hs
          exact stage_releasing heffects hkeys hempty
  | finished hquiet => exact .finished (quiet_client hquiet hsilent hs)

theorem silent_step {q : Service F → Prop}
    (hcongr : ∀ u running pc, q u → q { u with isRunning := running, keyerThread := pc })
    (htick : ∀ (hardware : Fin maxTransitionsPerTick → Readings) u, q u → Sending (track u.keyer) →
      q { u with keyer := update (fun i => keyInterface (hardware i)) u.keyer })
    (hclient : ∀ input u u', q u → receive input.arrived = none → clientStep char input u = .ok u' → q u')
    {act : Action} {u u' : Service F} (h : q u) (hsend : Sending (track u.keyer)) (hsilent : Silent act)
    (hs : step char u act = some u') : q u' := by
  cases act with
  | client input => exact hclient input u u' h hsilent (step_client hs)
  | keyer hardware =>
      cases hs
      cases hpc : u.keyerThread with
      | loop =>
          simp only [keyerStep, hpc]
          exact hcongr u u.isRunning _ h
      | returned =>
          simp only [keyerStep, hpc]
          exact h
      | ticking =>
          simp only [keyerStep, hpc]
          exact hcongr _ u.isRunning _ (htick hardware u h hsend)
  | stop =>
      cases hs
      exact hcongr u false u.keyerThread h

theorem quiet_step {act : Action} {u u' : Service F} (h : Quiet u) (hsend : Sending (track u.keyer))
    (hsilent : Silent act) (hs : step char u act = some u') : Quiet u' := by
  refine silent_step ?_ (fun hardware _ => quiet_update hardware) (fun _ _ _ => quiet_client) h hsend hsilent hs
  rintro u running pc ⟨htune, heffects, hkeys, hoff, hempty⟩
  exact ⟨htune, heffects, hkeys, hoff, hempty⟩

theorem stage_step {act : Action} {u u' : Service F} (h : Stage u) (hsend : Sending (track u.keyer))
    (hsilent : Silent act) (hs : step char u act = some u') : Stage u' := by
  refine silent_step ?_ (fun hardware _ => stage_update hardware) (fun _ _ _ => stage_client) h hsend hsilent hs
  intro u running pc hu
  cases hu with
  | clearing hpc htune hready hoff => exact .clearing hpc htune hready hoff
  | releasing bytes hpc heffects hkeys hempty => exact .releasing bytes hpc heffects hkeys hempty
  | finished hquiet =>
      exact .finished ⟨hquiet.tuning, hquiet.effects, hquiet.keys, hquiet.carrier, hquiet.buffer⟩

def sentElement : Event → Option Element
  | .entered .sendElement e => some e
  | _ => none

def sends (trace : List Event) : List Element := (trace.filterMap sentElement).reverse

omit [SinglePrecision F] in
theorem sends_track (k : Keyer F) : sends (track k).marks = sends k.trace := by
  have hmarks : (track k).marks.filterMap sentElement = k.trace.filterMap sentElement := by
    refine filterMap_filter_isMark ?_ k.trace
    intro e he
    cases e <;> first | rfl | cases he
  rw [sends, hmarks, sends]

def Trailing (t t' : Track) : Prop :=
  ∃ played, sends t'.marks = sends t.marks ++ played ∧
    played ++ elementsOf t'.data t'.bit.toNat = elementsOf t.data t.bit.toNat

theorem Trailing.refl (t : Track) : Trailing t t := ⟨[], (List.append_nil _).symm, rfl⟩

theorem Trailing.trans {t t' t'' : Track} (h : Trailing t t') (h' : Trailing t' t'') : Trailing t t'' := by
  obtain ⟨played, hsends, hrest⟩ := h
  obtain ⟨played', hsends', hrest'⟩ := h'
  refine ⟨played ++ played', ?_, ?_⟩
  · rw [hsends', hsends, List.append_assoc]
  · rw [List.append_assoc, hrest', hrest]

theorem trailing_same {t t' : Track} (hsends : sends t'.marks = sends t.marks) (hdata : t'.data = t.data)
    (hbit : t'.bit = t.bit) :
    Trailing t t' := by
  refine ⟨[], by rw [hsends, List.append_nil], ?_⟩
  rw [hdata, hbit]
  rfl

theorem trailing_move {t t' : Track} (hm : Move t t') (hempty : t.buffer.contents = []) : Trailing t t' := by
  cases hm with
  | stay heq => exact heq ▸ .refl t
  | route st next hst hne hnext sent heq =>
      subst heq
      refine trailing_same ?_ rfl rfl
      rw [hnext]
      split <;> rfl
  | space hst hbit hplayed sent heq =>
      subst heq
      exact trailing_same rfl rfl rfl
  | send hst hbit heq =>
      subst heq
      refine ⟨[nextElement t.data t.bit], ?_, (elementsOf_pos t.data hbit).symm⟩
      simp [sends, sentElement]
  | command hst hbit hplayed c rest hc hbuf | gap hst hbit hplayed c rest hc hbuf
  | char hst hbit hplayed c rest hc hbuf =>
      rw [hempty] at hbuf
      cases hbuf

theorem trailing_winkeyerData (c : UInt8) (k : Keyer F) : Trailing (track k) (track (winkeyerData c k)) := by
  have hemit (e : Event) (k : Keyer F) (he : fromByte e = true) : sends (emit e k).trace = sends k.trace := by
    cases e with
    | entered next sent => cases he
    | _ => rfl
  have hsends := winkeyerData_frame (fun k : Keyer F => sends k.trace) (fun _ _ _ _ _ _ => rfl)
    (fun _ _ _ _ => rfl) hemit c k
  have hframe := winkeyerData_frame (fun k : Keyer F => (k.playingData, k.playingBit)) (fun _ _ _ _ _ _ => rfl)
    (fun _ _ _ _ => rfl) (fun _ _ _ => rfl) c k
  obtain ⟨hdata, hbit⟩ := Prod.mk.inj hframe
  refine trailing_same ?_ hdata hbit
  rw [sends_track, sends_track]
  exact hsends

theorem trailing_update (hardware : Fin maxTransitionsPerTick → Readings) {k : Keyer F} (hs : Sending (track k))
    (hempty : k.winkeyerBuffer.contents = []) :
    Trailing (track k) (track (update (fun i => keyInterface (hardware i)) k)) := by
  refine (update_invariant (fun k' => Trailing (track k) (track k') ∧ Sending (track k') ∧
    k'.winkeyerBuffer.contents = []) (fun i => keyInterface (hardware i)) ?_ ⟨.refl _, hs, hempty⟩).1
  rintro i k' ⟨htrailing, hs', hempty'⟩
  have hreleased := keyInterface_released (hardware i)
  have hmove := pass_moves hreleased hs' (by rw [hempty']; nofun)
  refine ⟨htrailing.trans (trailing_move hmove hempty'), hmove.sending hs', ?_⟩
  have hsame := fetch_empty (pass_fetches hreleased (unlatched_of_sending hs')) hempty'
  exact (congrArg (fun p : Pace F => p.buffer.contents) hsame).trans hempty'

/-- What an abort is for. Once the worker has fed what it feeds for it, the buffer is empty, the
carrier is off, and as long as no datagram arrives only the elements that the character in progress
still asks for are sent. -/
def Stopped (char : CharType) (s : Service F) : Prop :=
  ∀ acts t, Run (step char) (fun _ act => Silent act) s acts t → toFeed t.client = [] →
    t.keyer.winkeyerBuffer.empty = true ∧ t.keyer.trace.find? isImmediate ≠ some (.keyDown .immediate) ∧
      ∀ later u, Run (step char) (fun _ act => Silent act) t later u →
        ∃ played, sends u.keyer.trace = sends t.keyer.trace ++ played ∧
          played <+: elementsOf t.keyer.playingData t.keyer.playingBit.toNat

theorem trailing_step {act : Action} {u u' : Service F} (hsend : Sending (track u.keyer))
    (hempty : u.keyer.winkeyerBuffer.contents = []) (hs : step char u act = some u') :
    Trailing (track u.keyer) (track u'.keyer) := by
  cases advance_of_step hs with
  | quiet _ hkeyer _ | carrier _ hkeyer _ _ | message _ _ _ _ _ hkeyer _ =>
      rw [hkeyer]
      exact .refl _
  | byte _ _ _ c _ _ hkeyer _ =>
      rw [hkeyer]
      exact trailing_winkeyerData c u.keyer
  | tick _ hardware hkeyer _ =>
      rw [hkeyer]
      exact trailing_update hardware hsend hempty

omit [SinglePrecision F] in
theorem Stage.quiet {u : Service F} (h : Stage u) (hfed : toFeed u.client = []) : Quiet u := by
  cases h with
  | clearing hpc =>
      rw [hpc] at hfed
      cases hfed
  | releasing bytes hpc heffects hkeys hempty =>
      rw [hpc] at hfed
      cases hfed
      cases hkeys
  | finished hquiet => exact hquiet

theorem trailing_run {later : List Action} {t u : Service F} (h : Quiet t) (hsend : Sending (track t.keyer))
    (hrun : Run (step char) (fun _ act => Silent act) t later u) :
    Trailing (track t.keyer) (track u.keyer) := by
  have hkept := hrun.invariant (fun v => (Quiet v ∧ Sending (track v.keyer)) ∧
    Trailing (track t.keyer) (track v.keyer))
    ⟨⟨h, hsend⟩, .refl _⟩ ?_
  · exact hkept.2
  · rintro v act v' ⟨⟨hquiet, hsending⟩, htrailing⟩ hok hs
    refine ⟨⟨quiet_step hquiet hsending hok hs, sending_step hsending hs⟩, ?_⟩
    exact htrailing.trans (trailing_step hsending hquiet.buffer hs)

theorem stopped_of_stage {s : Service F} (h : Stage s) (hsend : Sending (track s.keyer)) : Stopped char s := by
  intro acts t hrun hfed
  obtain ⟨hstage, hsending⟩ := hrun.invariant (fun u => Stage u ∧ Sending (track u.keyer)) ⟨h, hsend⟩
    fun u act u' hu hok hs => ⟨stage_step hu.1 hu.2 hok hs, sending_step hu.2 hs⟩
  have hquiet := hstage.quiet hfed
  refine ⟨(CircularBuffer.empty_iff_contents _).mpr hquiet.buffer,
    (carrierOff_trace t.keyer).mp hquiet.carrier, ?_⟩
  intro later u hlater
  obtain ⟨played, hsends, hrest⟩ := trailing_run hquiet hsending hlater
  rw [sends_track, sends_track] at hsends
  exact ⟨played, hsends, ⟨_, hrest⟩⟩

/-- Outside a tune the abort goes to the keyer as the command that clears the buffer; within one it
only ends the tune. -/
theorem clientStep_abort (char : CharType) {input : Input} {message : List UInt8} {s : Service F}
    (hpc : s.client = .receiving) (hm : receive input.arrived = some message)
    (habort : isAbortSendCmd message = true) :
    clientStep char input s =
      .ok { s with client := if s.isTuning then .endTuning carrierOff else .feeding [0x0A] } := by
  have hesc := headD_of_escape habort
  have hcommand : message.getD 1 0 = '4'.toUInt8 := by
    simp only [isAbortSendCmd, Bool.and_eq_true, beq_iff_eq] at habort
    exact habort.2
  have hexit : ¬ isExitCmd message = true := by
    rw [isExitCmd, hcommand, Bool.and_eq_true]
    exact fun h => absurd h.2 (by decide)
  have hw (speed : UInt8) : toWinkeyer char message speed = .ok [0x0A] := by
    rw [toWinkeyer, if_neg (not_not.mpr hesc), hcommand]
    rfl
  rw [clientStep_receiving char hpc hm, handleMessage, if_neg hexit, habort, Bool.and_true]
  by_cases htune : s.isTuning = true
  · rw [if_pos htune, if_pos htune]
  · rw [if_neg htune, if_neg htune, hw]
    rfl

theorem fed_run (char : CharType) (bytes : List UInt8) (s : Service F) (hfeed : toFeed s.client = bytes) :
    ∃ acts t, Run (step char) (fun _ act => Silent act) s acts t ∧ toFeed t.client = [] ∧
      (effects bytes (parser s.keyer) = [] → t.keyer.winkeyerBuffer = s.keyer.winkeyerBuffer) := by
  induction bytes generalizing s with
  | nil => exact ⟨[], s, .start, hfeed, fun _ => rfl⟩
  | cons c bytes ih =>
      obtain ⟨s', hs, hkeyer, hfeed'⟩ : ∃ s', step char s (.client ⟨none, 0⟩) = some s' ∧
          s'.keyer = winkeyerData c s.keyer ∧ toFeed s'.client = bytes := by
        cases hpc : s.client with
        | feeding rest | endTuning rest =>
            rw [hpc] at hfeed
            cases hfeed
            simp only [step, clientStep, hpc]
            exact ⟨_, rfl, rfl, rfl⟩
        | loop | receiving | polling | returned =>
            rw [hpc] at hfeed
            cases hfeed
      obtain ⟨acts, t, hrun, hfed, hbuffer⟩ := ih s' hfeed'
      refine ⟨.client ⟨none, 0⟩ :: acts, t, hrun.head (by decide) hs, hfed, fun heffects => ?_⟩
      obtain ⟨heffect, hrest⟩ := List.append_eq_nil_iff.mp heffects
      rw [hbuffer (by rw [hkeyer, parser_winkeyerData]; exact hrest), hkeyer]
      exact contents_winkeyerData heffect

omit [SinglePrecision F] in
theorem stage_abort {s : Service F} (h : Reached s) (hready : Ready (parser s.keyer))
    (hpc : s.client = .receiving) (hcase : s.isTuning = false ∨ s.keyer.winkeyerBuffer.empty = true) :
    Stage { s with client := if s.isTuning then .endTuning carrierOff else .feeding [0x0A] } := by
  by_cases htune : s.isTuning = true
  · rw [htune, CircularBuffer.empty_iff_contents] at hcase
    refine .releasing carrierOff (by rw [if_pos htune]) (emits_carrierOff _ hready).2 ?_
      (hcase.resolve_left (by simp))
    exact (feedAll_key hready.1 0).2 rfl
  · rw [Bool.not_eq_true] at htune
    have hmanned : Manned CarrierOff s := h.manned.resolve_left (by simp [hpc])
    have hacc := hmanned.accounted
    simp only [AccountedBy, hpc, htune] at hacc
    exact .clearing (by rw [htune]; rfl) htune hready (hacc.resolve_left (by simp)).1

/-- When an abort stops everything. From every reachable state the worker takes up the abort and
feeds what it feeds for it, and the service is then quiet exactly when it was not tuning or nothing
was queued behind the tune. -/
theorem abort_stops_iff (char : CharType) (a : Readings) (initialWpm : UInt8) (acts : List Action)
    (s : Service F) (h : Run (step char) (fun _ _ => True) (start a initialWpm) acts s)
    (hpc : s.client = .receiving) (input : Input) (message : List UInt8)
    (hm : receive input.arrived = some message) (habort : isAbortSendCmd message = true) :
    ∃ s', step char s (.client input) = some s' ∧
      (∃ acts t, Run (step char) (fun _ act => Silent act) s' acts t ∧ toFeed t.client = []) ∧
      (Stopped char s' ↔ s.isTuning = false ∨ s.keyer.winkeyerBuffer.empty = true) := by
  have hreached : Reached s :=
    h.invariant Reached (reached_start a initialWpm) fun _ _ _ hu _ => reached_step hu
  have hready := ready_run h (by rw [hpc]; rfl)
  have hstep := clientStep_abort char hpc hm habort
  obtain ⟨fed, t, hrun, hfed, hbuffer⟩ := fed_run char _
    { s with client := if s.isTuning then .endTuning carrierOff else .feeding [0x0A] } rfl
  refine ⟨_, congrArg Except.toOption hstep, ⟨fed, t, hrun, hfed⟩, ?_, ?_⟩
  · intro hstopped
    by_cases htune : s.isTuning = true
    · have heffects :
          effects (toFeed (if s.isTuning then .endTuning carrierOff else .feeding [0x0A])) (parser s.keyer) = [] := by
        rw [if_pos htune]
        exact (emits_carrierOff _ hready).2
      have hempty := (hstopped fed t hrun hfed).1
      rw [hbuffer heffects] at hempty
      exact .inr hempty
    · exact .inl (Bool.not_eq_true _ ▸ htune)
  · intro hcase
    exact stopped_of_stage (stage_abort hreached hready hpc hcase) hreached.sending

end

/-- A tune and two letters behind it, all of it before the first tick. -/
def tuneThenText : List Action :=
  [quiet 0, datagram [27, 0x63, 0x35] 0, quiet 0, quiet 0, quiet 0, quiet 0, quiet 0, datagram [0x45, 0x54] 0,
    quiet 0, quiet 0, quiet 0, quiet 0, quiet 0]

def textOnly : List Action :=
  [quiet 0, datagram [0x45, 0x54] 0, quiet 0, quiet 0, quiet 0, quiet 0, quiet 0]

theorem abort_stops_text :
    ∃ s s', Run (step .signed) (fun _ _ => True) (start (.at 0) 24 : Service ℚ) textOnly s ∧
      s.keyer.winkeyerBuffer.contents = [0x45, 0x54] ∧
      step .signed s (.client ⟨some [27, 0x34], 0⟩) = some s' ∧ Stopped .signed s' := by
  obtain ⟨s, hrun, hview⟩ := run_of_exec_map (step .signed) (fun _ _ => True) (start (.at 0) 24 : Service ℚ)
    textOnly (fun s => (s.client, s.isTuning, s.keyer.winkeyerBuffer.contents)) (.receiving, false, [0x45, 0x54])
    (by decide +kernel)
  simp only [Prod.mk.injEq] at hview
  obtain ⟨hpc, htune, hcontents⟩ := hview
  obtain ⟨s', hs, -, hiff⟩ := abort_stops_iff .signed (.at 0) 24 textOnly s hrun hpc ⟨some [27, 0x34], 0⟩
    [27, 0x34, 0] (by decide) (by decide)
  exact ⟨s, s', hrun, hcontents, hs, hiff.mpr (.inl htune)⟩

/-- An abort during the tune: the carrier goes off and the letters are still sent. -/
theorem text_outlives_abort :
    ∃ s s', Run (step .signed) (fun _ _ => True) (start (.at 0) 24 : Service ℚ) tuneThenText s ∧
      s.client = .receiving ∧ step .signed s (.client ⟨some [27, 0x34], 0⟩) = some s' ∧ ¬ Stopped .signed s' := by
  obtain ⟨s, hrun, hview⟩ := run_of_exec_map (step .signed) (fun _ _ => True) (start (.at 0) 24 : Service ℚ)
    tuneThenText (fun s => (s.client, (step .signed s (.client ⟨some [27, 0x34], 0⟩)).bind fun s' =>
      (exec (step .signed) (fun _ act => Silent act) s' [quiet 0, quiet 0, quiet 0]).map fun t =>
        (t.client, t.isTuning, t.keyer.winkeyerBuffer.empty)))
    (.receiving, some (.loop, false, false)) (by decide +kernel)
  obtain ⟨hpc, hview⟩ := Prod.mk.inj hview
  obtain ⟨s', hs, hview⟩ := Option.bind_eq_some_iff.mp hview
  obtain ⟨t, ht, hview⟩ := Option.map_eq_some_iff.mp hview
  simp only [Prod.mk.injEq] at hview
  obtain ⟨hloop, -, hbuffer⟩ := hview
  refine ⟨s, s', hrun, hpc, hs, fun hstopped => ?_⟩
  have hempty := (hstopped _ t (run_of_exec ht) (by rw [hloop]; rfl)).1
  rw [hbuffer] at hempty
  cases hempty

end Cwsd.Abort

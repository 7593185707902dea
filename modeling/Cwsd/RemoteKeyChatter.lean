import Cwsd.RemoteKeyLead

namespace Cwsd.RemoteKeyChatter

open RemoteKeyProtocol RemoteKeyServer RemoteKeyPlayout RemoteKeyLead Runs

/-- The clock never goes back, and the tail after a pass lies within 64 bits. -/
def ClockOk (cfg : Config) (s : Server) : Action → Prop
  | .datagram now _ => s.clockUs ≤ now
  | .pass now => s.clockUs ≤ now ∧ now.toNat + cfg.pttTailMs.toNat * 1000 < 2 ^ 64
  | .plug | .unplug => True

instance (cfg : Config) (s : Server) (act : Action) : Decidable (ClockOk cfg s act) :=
  match act with
  | .datagram _ _ => inferInstanceAs (Decidable (_ ≤ _))
  | .pass _ => inferInstanceAs (Decidable (_ ∧ _))
  | .plug | .unplug => inferInstanceAs (Decidable True)

/-- No session reset and no stream silence. -/
def Undisturbed (cfg : Config) (s : Server) : Action → Prop
  | .datagram _ bytes => ∀ pkt ∈ decode (bytes.take maxPacketBytes), opensSession pkt s = false
  | .pass now => isSilent cfg (now - s.lastRxUs) s.lastRxUs = false
  | .plug | .unplug => True

instance (cfg : Config) (s : Server) (act : Action) : Decidable (Undisturbed cfg s act) :=
  match act with
  | .datagram _ bytes =>
      inferInstanceAs (Decidable (∀ pkt ∈ decode (bytes.take maxPacketBytes), opensSession pkt s = false))
  | .pass _ => inferInstanceAs (Decidable (_ = _))
  | .plug | .unplug => inferInstanceAs (Decidable True)

def drained (cfg : Config) (now : UInt64) (s : Server) : Server :=
  drain cfg now (checks cfg now { s with clockUs := now })

/-- The pass at now calls set_ptt(true) because the key-down e at the front is within
the lead window. -/
structure Led (cfg : Config) (now : UInt64) (s : Server) (e : ScheduledEdge) : Prop where
  front : (drained cfg now s).queue.head? = some e
  down : e.isDown = true
  off : (drained cfg now s).pttIsOn = false
  near : e.atUs ≤ now + us cfg.pttLeadMs

def led (cfg : Config) (now : UInt64) (s : Server) : Server :=
  pttLead cfg now (drained cfg now s).queue.head? (drained cfg now s)

def NoRelease (since : List Event) : Prop := ∀ t, .setPtt t false ∉ since

/-- Of the events since the call, newest first, none is a set_ptt(false) before the
edge has been applied. -/
def HeldUntilApplied (e : ScheduledEdge) (since : List Event) : Prop :=
  NoRelease since ∨ ∃ later t earlier, since = later ++ .popped t e :: earlier ∧ NoRelease earlier

structure Holding (cfg : Config) (e : ScheduledEdge) (s : Server) : Prop where
  front : s.queue.head? = some e
  on : s.pttIsOn = true
  noReset : s.resetRequested = false
  near : e.atUs.toNat ≤ s.clockUs.toNat + cfg.pttLeadMs.toNat * 1000

/-- The events since a log, and PTT is held as long as the edge has not been applied. -/
def Kept (cfg : Config) (e : ScheduledEdge) (log : List Event) (s : Server) : Prop :=
  ∃ since, s.log = since ++ log ∧
    (Holding cfg e s ∧ NoRelease since ∨
      ∃ later t earlier, since = later ++ .popped t e :: earlier ∧ NoRelease earlier)

theorem Kept.held {cfg : Config} {e : ScheduledEdge} {log : List Event} {s : Server} (h : Kept cfg e log s) :
    ∃ since, s.log = since ++ log ∧ HeldUntilApplied e since := by
  obtain ⟨since, hlog, h⟩ := h
  exact ⟨since, hlog, h.imp_left And.right⟩

section

variable {cfg : Config} {now : UInt64} {e : ScheduledEdge} {log : List Event} {s : Server}

theorem resetRequested_drained : (drained cfg now s).resetRequested = false := by
  have hreset (s : Server) : (checkReset now s).resetRequested = false := by
    rw [checkReset]
    split
    · rfl
    · exact Bool.eq_false_iff.mpr ‹_›
  have hsilence (s : Server) : (checkSilence cfg now s).resetRequested = s.resetRequested := by
    simp only [checkSilence, silenceSafe]
    split
    · split <;> rfl
    · rfl
  have hwatchdog (s : Server) : (checkWatchdog cfg now s).resetRequested = s.resetRequested := by
    rw [checkWatchdog]
    split <;> rfl
  rw [drained, drain, resetRequested_applyDue, checks, hwatchdog, hsilence, hreset]

theorem clockUs_drained : (drained cfg now s).clockUs = now := by
  have hr : receiver (drained cfg now s) = receiver { s with clockUs := now } := by
    rw [drained, drain, receiver_applyDue, receiver_checks]
  exact congrArg Receiver.clockUs hr

theorem pttTail_holding (h : Holding cfg e s) (hdown : e.isDown = true) (hclock : s.clockUs = now)
    (hlt : cfg.pttLeadMs < cfg.pttTailMs) (hfits : now.toNat + cfg.pttTailMs.toNat * 1000 < 2 ^ 64) :
    pttTail cfg now s.queue.head? s = s := by
  have hlt' := UInt32.lt_iff_toNat_lt.mp hlt
  have hpending : e.atUs < now + us cfg.pttTailMs := by
    rw [UInt64.lt_iff_toNat_lt, toNat_add_us hfits]
    have hnear := h.near
    rw [hclock] at hnear
    omega
  rw [pttTail, h.front]
  simp [keydownPending, hdown, hpending]

theorem holding_checks (h : Holding cfg e s) (hle : s.clockUs ≤ now)
    (hsilent : isSilent cfg (now - s.lastRxUs) s.lastRxUs = false) :
    Holding cfg e (checks cfg now { s with clockUs := now }) ∧
      ∃ new, (checks cfg now { s with clockUs := now }).log = new ++ s.log ∧ NoRelease new := by
  have hle' := UInt64.le_iff_toNat_le.mp hle
  have hnear : e.atUs.toNat ≤ now.toNat + cfg.pttLeadMs.toNat * 1000 := Nat.le_trans h.near (by omega)
  obtain ⟨_, _, hreconnect⟩ := reconnect_eq now { s with clockUs := now }
  rw [checks_of_heard _ _ hsilent, hreconnect, checkReset, if_neg (Bool.eq_false_iff.mp h.noReset), checkWatchdog]
  split
  · exact ⟨⟨h.front, h.on, h.noReset, hnear⟩, [.setKey now false], rfl, by simp [NoRelease]⟩
  · exact ⟨⟨h.front, h.on, h.noReset, hnear⟩, [], rfl, by simp [NoRelease]⟩

theorem kept_grows {s' : Server} {p : UInt64 → Prop} {since later earlier : List Event} {t : UInt64}
    (hlog : s.log = since ++ log) (happlied : since = later ++ .popped t e :: earlier) (hno : NoRelease earlier)
    (hs : Since s p s') : Kept cfg e log s' := by
  obtain ⟨new, hnew, -⟩ := hs
  refine ⟨new ++ since, by rw [hnew, hlog, List.append_assoc], .inr ⟨new ++ later, t, earlier, ?_, hno⟩⟩
  rw [happlied, List.append_assoc]

theorem kept_pass (h : Kept cfg e log s) (hdown : e.isDown = true) (hlt : cfg.pttLeadMs < cfg.pttTailMs)
    (hok : ClockOk cfg s (.pass now)) (hsilent : isSilent cfg (now - s.lastRxUs) s.lastRxUs = false) :
    Kept cfg e log (replayPass cfg now s) := by
  obtain ⟨since, hlog, ⟨hhold, hno⟩ | ⟨later, t, earlier, happlied, hno⟩⟩ := h
  · obtain ⟨hchecked, new, hnew, hquiet⟩ := holding_checks hhold hok.1 hsilent
    have hclock : (checks cfg now { s with clockUs := now }).clockUs = now :=
      congrArg Receiver.clockUs (receiver_checks cfg now { s with clockUs := now })
    rw [replayPass]
    generalize checks cfg now { s with clockUs := now } = c at hchecked hnew hclock
    have hclog : c.log = (new ++ since) ++ log := by rw [hnew, hlog, List.append_assoc]
    have hcno : NoRelease (new ++ since) := fun t ht => (List.mem_append.mp ht).elim (hquiet t) (hno t)
    by_cases hdue : e.atUs ≤ now
    · -- the drain applies the edge before anything can release PTT
      obtain ⟨rest, hqueue⟩ : ∃ rest, c.queue = e :: rest := List.head?_eq_some_iff.mp hchecked.front
      have hpop : (emit (.popped now e) c).log = (.popped now e :: (new ++ since)) ++ log := by
        rw [emit, hclog]
        rfl
      have hdrain : Since (emit (.popped now e) c) (· = now) (drain cfg now c) := by
        rw [drain, hqueue, applyDue, if_pos hdue]
        exact ((since_pttForEdge e.isDown _).both (since_keyForEdge e.isDown _ _)).both (since_applyDue _ _)
      exact kept_grows hpop (List.nil_append _).symm hcno (hdrain.both (since_sequencePtt _))
    · have hlead : pttLead cfg now c.queue.head? c = c := by simp [pttLead, hchecked.front, hchecked.on]
      rw [drain_waiting hchecked.front hdue, sequencePtt, hlead, pttTail_holding hchecked hdown hclock hlt hok.2]
      exact ⟨new ++ since, hclog, .inl ⟨hchecked, hcno⟩⟩
  · exact kept_grows hlog happlied hno since_pass

theorem kept_datagram {bytes : List UInt8} (h : Kept cfg e log s) (hle : s.clockUs ≤ now)
    (hopens : ∀ pkt ∈ decode (bytes.take maxPacketBytes), opensSession pkt s = false) :
    Kept cfg e log (receiveDatagram cfg now bytes s) := by
  obtain ⟨since, hlog, ⟨hhold, hno⟩ | ⟨later, t, earlier, happlied, hno⟩⟩ := h
  · rw [receiveDatagram]
    split
    · exact ⟨since, hlog, .inl ⟨hhold, hno⟩⟩
    · rename_i pkt hpkt
      have hhold' : Holding cfg e (handlePacket cfg now pkt s) := by
        obtain ⟨hclock, -⟩ := clockUs_handlePacket cfg now s pkt
        refine ⟨front_handlePacket hhold.front (hopens pkt hpkt),
          (congrArg Engine.pttIsOn (engine_handlePacket cfg now s pkt)).trans hhold.on, ?_, ?_⟩
        · rw [handlePacket, resetRequested_enqueue, Bool.or_eq_false_iff]
          exact ⟨hopens pkt hpkt, hhold.noReset⟩
        · have hle' := UInt64.le_iff_toNat_le.mp hle
          rw [hclock]
          exact Nat.le_trans hhold.near (by omega)
      refine ⟨_, by rw [log_handlePacket, hlog, ← List.append_assoc], .inl ⟨hhold', ?_⟩⟩
      intro t ht
      rcases List.mem_append.mp ht with ht | ht
      · simp at ht
      · exact hno t ht
  · exact kept_grows hlog happlied hno (since_receive (fun _ => True) bytes)

theorem kept_step {s' : Server} {act : Action} (h : Kept cfg e log s) (hdown : e.isDown = true)
    (hlt : cfg.pttLeadMs < cfg.pttTailMs) (hok : ClockOk cfg s act ∧ Undisturbed cfg s act)
    (hs : step cfg s act = some s') : Kept cfg e log s' := by
  cases act with
  | datagram now bytes =>
      cases hs
      exact kept_datagram h hok.1 hok.2
  | pass now =>
      cases hs
      exact kept_pass h hdown hlt hok.1 hok.2
  | plug | unplug =>
      cases hs
      obtain ⟨since, hlog, hcase⟩ := h
      exact ⟨since, hlog, hcase.imp_left fun hh => ⟨⟨hh.1.front, hh.1.on, hh.1.noReset, hh.1.near⟩, hh.2⟩⟩

theorem kept_led (h : Led cfg now s e) (hlt : cfg.pttLeadMs < cfg.pttTailMs)
    (hok : ClockOk cfg s (.pass now)) : Kept cfg e (led cfg now s).log (replayPass cfg now s) := by
  have hled : led cfg now s = { setPtt now true (drained cfg now s) with pttIsOn := true } := by
    simp [led, pttLead, h.front, h.down, h.off, h.near]
  have hclock : (led cfg now s).clockUs = now := by
    rw [hled]
    exact clockUs_drained
  have hfront : (led cfg now s).queue.head? = (drained cfg now s).queue.head? := by rw [hled]; rfl
  have hhold : Holding cfg e (led cfg now s) := by
    refine ⟨hfront.trans h.front, by rw [hled], by rw [hled]; exact resetRequested_drained, ?_⟩
    have hlt' := UInt32.lt_iff_toNat_lt.mp hlt
    have hfits : now.toNat + cfg.pttLeadMs.toNat * 1000 < 2 ^ 64 := Nat.lt_of_le_of_lt (by omega) hok.2
    have hnear := UInt64.le_iff_toNat_le.mp h.near
    rw [toNat_add_us hfits] at hnear
    rw [hclock]
    exact hnear
  have hpass : replayPass cfg now s = led cfg now s := by
    have htail := pttTail_holding hhold h.down hclock hlt hok.2
    rw [hfront] at htail
    exact htail
  rw [hpass]
  exact ⟨[], rfl, .inl ⟨hhold, by simp [NoRelease]⟩⟩

end

/-- Once set_ptt(true) has been called for the lead of a key-down, set_ptt(false) is not
called until that edge has been applied, if no reset and no silence intervenes. -/
def NoChatter (cfg : Config) : Prop :=
  ∀ present acts s now e rest s',
    Run (step cfg) (ClockOk cfg) (start present) acts s → ClockOk cfg s (.pass now) → Led cfg now s e →
    Run (step cfg) (fun s act => ClockOk cfg s act ∧ Undisturbed cfg s act) (replayPass cfg now s) rest s' →
      ∃ since, s'.log = since ++ (led cfg now s).log ∧ HeldUntilApplied e since

def leadApart (cfg : Config) : Packet := ⟨7, 0, [⟨1, 0⟩, ⟨1 + us cfg.pttLeadMs, keyDown⟩]⟩

def leadUp (cfg : Config) : ScheduledEdge := ⟨1 + us cfg.playoutMs, 0, 7, 1, 1⟩

def leadDown (cfg : Config) : ScheduledEdge :=
  ⟨1 + us cfg.playoutMs + us cfg.pttLeadMs, keyDown, 7, 1 + us cfg.pttLeadMs, 1⟩

section

variable (cfg : Config)

theorem toNat_one_add_us (ms : UInt32) : (1 + us ms).toNat = 1 + ms.toNat * 1000 := by
  have hlt := ms.toNat_lt
  have hfits : (1 : UInt64).toNat + ms.toNat * 1000 < 2 ^ 64 := by
    rw [UInt64.toNat_one]
    omega
  rw [toNat_add_us hfits, UInt64.toNat_one]

theorem toNat_leadDown : (leadDown cfg).atUs.toNat = 1 + cfg.playoutMs.toNat * 1000 + cfg.pttLeadMs.toNat * 1000 := by
  have hp := cfg.playoutMs.toNat_lt
  have hl := cfg.pttLeadMs.toNat_lt
  have hslot := toNat_one_add_us cfg.playoutMs
  have hfits : (1 + us cfg.playoutMs).toNat + cfg.pttLeadMs.toNat * 1000 < 2 ^ 64 := by omega
  rw [leadDown, toNat_add_us hfits, hslot]

end

section

variable {cfg : Config}

theorem handlePacket_leadApart (hlead : cfg.pttLeadMs ≠ 0) :
    handlePacket cfg 1 (leadApart cfg) (start true) =
      { start true with
        queue := [leadUp cfg, leadDown cfg], haveAnchor := true, anchorSrcUs := 1
        anchorLocalUs := 1 + us cfg.playoutMs, lastEnqueuedSrc := 1 + us cfg.pttLeadMs
        sessionId := 7, haveSession := true, lastRxUs := 1, resetRequested := true, clockUs := 1
        log := [.pushed (leadDown cfg), .pushed (leadUp cfg)] } := by
  have hpos : cfg.pttLeadMs.toNat ≠ 0 := fun h => hlead (UInt32.toNat_inj.mp h)
  have hnew : ¬ 1 + us cfg.pttLeadMs ≤ 1 := by
    rw [UInt64.le_iff_toNat_le, toNat_one_add_us, UInt64.toNat_one]
    omega
  have hup : ¬ 1 + us cfg.playoutMs < 1 := by
    rw [UInt64.lt_iff_toNat_lt, toNat_one_add_us, UInt64.toNat_one]
    omega
  have hdown : ¬ 1 + us cfg.playoutMs + us cfg.pttLeadMs < 1 := by
    have hat := toNat_leadDown cfg
    rw [leadDown] at hat
    rw [UInt64.lt_iff_toNat_lt, hat, UInt64.toNat_one]
    omega
  have hsub : 1 + us cfg.pttLeadMs - 1 = us cfg.pttLeadMs := by
    rw [UInt64.add_comm, UInt64.add_sub_cancel]
  simp [handlePacket, enqueue, storeRx, openSession, opensSession, start, leadApart, pushEdge, anchor, schedule,
    emit, hnew, hup, hdown, hsub, leadUp, leadDown]

def leadAwaited (cfg : Config) : Server :=
  handlePacket cfg (1 + us cfg.playoutMs) ⟨7, 0, []⟩ (handlePacket cfg 1 (leadApart cfg) (start true))

theorem leadAwaited_eq (hlead : cfg.pttLeadMs ≠ 0) :
    leadAwaited cfg =
      { handlePacket cfg 1 (leadApart cfg) (start true) with
        clockUs := 1 + us cfg.playoutMs, lastRxUs := 1 + us cfg.playoutMs } := by
  rw [leadAwaited, handlePacket_leadApart hlead]
  rfl

theorem checks_leadAwaited (hlead : cfg.pttLeadMs ≠ 0) :
    checks cfg (1 + us cfg.playoutMs) { leadAwaited cfg with clockUs := 1 + us cfg.playoutMs } =
      safeState (1 + us cfg.playoutMs) { leadAwaited cfg with resetRequested := false } := by
  rw [leadAwaited_eq hlead, handlePacket_leadApart hlead]
  simp only [checks, reconnect, start, Port.openPort, checkReset, checkSilence, isSilent, checkWatchdog]
  simp [safeState, forceSafe, setPtt, setKey, emit]

theorem drained_leadAwaited (hlead : cfg.pttLeadMs ≠ 0) :
    (drained cfg (1 + us cfg.playoutMs) (leadAwaited cfg)).queue = [leadDown cfg] ∧
      (drained cfg (1 + us cfg.playoutMs) (leadAwaited cfg)).pttIsOn = false ∧
      (drained cfg (1 + us cfg.playoutMs) (leadAwaited cfg)).keyIsDown = false ∧
      (drained cfg (1 + us cfg.playoutMs) (leadAwaited cfg)).pttReleaseAtUs = 0 := by
  have hlater : ¬ (leadDown cfg).atUs ≤ 1 + us cfg.playoutMs := by
    have hpos : cfg.pttLeadMs.toNat ≠ 0 := fun h => hlead (UInt32.toNat_inj.mp h)
    rw [UInt64.le_iff_toNat_le, toNat_leadDown, toNat_one_add_us]
    omega
  have hqueue : (leadAwaited cfg).queue = [leadUp cfg, leadDown cfg] := by
    rw [leadAwaited_eq hlead, handlePacket_leadApart hlead]
  have hrelease : (leadAwaited cfg).pttReleaseAtUs = 0 := by
    rw [leadAwaited_eq hlead, handlePacket_leadApart hlead]
    rfl
  have hdue : (leadUp cfg).atUs ≤ 1 + us cfg.playoutMs := UInt64.le_refl _
  have hup : (leadUp cfg).isDown = false := by simp [leadUp, ScheduledEdge.isDown]
  rw [drained, checks_leadAwaited hlead, drain]
  simp only [safeState, forceSafe, setPtt, setKey, emit, hqueue]
  rw [applyDue, if_pos hdue, applyDue, if_neg hlater]
  simp [applyEdge, pttForEdge, keyForEdge, hup, emit, hrelease]

theorem clockOk_slot (cfg : Config) : ClockOk cfg (leadAwaited cfg) (.pass (1 + us cfg.playoutMs)) := by
  have hp := cfg.playoutMs.toNat_lt
  have ht := cfg.pttTailMs.toNat_lt
  have hclock : (leadAwaited cfg).clockUs = 1 + us cfg.playoutMs := (clockUs_handlePacket cfg _ _ _).1
  rw [ClockOk, hclock, toNat_one_add_us]
  exact ⟨UInt64.le_refl _, by omega⟩

theorem leadAwaited_run (hlead : cfg.pttLeadMs ≠ 0) :
    Run (step cfg) (ClockOk cfg) (start true)
      [.datagram 1 (encode (leadApart cfg)), .datagram (1 + us cfg.playoutMs) (encode ⟨7, 0, []⟩)]
      (leadAwaited cfg) := by
  have hfirst : step cfg (start true) (.datagram 1 (encode (leadApart cfg))) =
      some (handlePacket cfg 1 (leadApart cfg) (start true)) := by
    rw [step, receiveDatagram_encode]
    rfl
  have hsecond : step cfg (handlePacket cfg 1 (leadApart cfg) (start true))
      (.datagram (1 + us cfg.playoutMs) (encode ⟨7, 0, []⟩)) = some (leadAwaited cfg) := by
    rw [step, receiveDatagram_encode]
    rfl
  have hclock : (handlePacket cfg 1 (leadApart cfg) (start true)).clockUs ≤ 1 + us cfg.playoutMs := by
    rw [handlePacket_leadApart hlead, UInt64.le_iff_toNat_le, toNat_one_add_us]
    exact Nat.le_add_right _ _
  have hopened : Run (step cfg) (ClockOk cfg) (handlePacket cfg 1 (leadApart cfg) (start true))
      [.datagram (1 + us cfg.playoutMs) (encode ⟨7, 0, []⟩)] (leadAwaited cfg) := Run.head hclock hsecond .start
  exact hopened.head (UInt64.le_of_lt (by decide)) hfirst

theorem leadAwaited_led (hlead : cfg.pttLeadMs ≠ 0) :
    Led cfg (1 + us cfg.playoutMs) (leadAwaited cfg) (leadDown cfg) := by
  obtain ⟨hqueue, hoff, -, -⟩ := drained_leadAwaited hlead
  exact ⟨by rw [hqueue]; rfl, by simp [leadDown, ScheduledEdge.isDown]; decide, hoff, UInt64.le_refl _⟩

/-- With a tail not longer than the lead, that pass takes the call back at once. -/
theorem leadAwaited_released (hlead : cfg.pttLeadMs ≠ 0) (hle : ¬ cfg.pttLeadMs < cfg.pttTailMs) :
    (replayPass cfg (1 + us cfg.playoutMs) (leadAwaited cfg)).log =
      .setPtt (1 + us cfg.playoutMs) false :: (led cfg (1 + us cfg.playoutMs) (leadAwaited cfg)).log := by
  obtain ⟨hqueue, hoff, hup, hrelease⟩ := drained_leadAwaited hlead
  obtain ⟨hfront, hdown, -, hnear⟩ := leadAwaited_led hlead
  have hled : led cfg (1 + us cfg.playoutMs) (leadAwaited cfg) =
      { setPtt (1 + us cfg.playoutMs) true (drained cfg (1 + us cfg.playoutMs) (leadAwaited cfg)) with
        pttIsOn := true } := by
    simp [led, pttLead, hfront, hdown, hoff, hnear]
  have hpending : keydownPending cfg (1 + us cfg.playoutMs) (some (leadDown cfg)) = false := by
    have hlate : ¬ (leadDown cfg).atUs < 1 + us cfg.playoutMs + us cfg.pttTailMs := by
      have hfits := (clockOk_slot cfg).2
      rw [UInt32.lt_iff_toNat_lt] at hle
      rw [UInt64.lt_iff_toNat_lt, toNat_leadDown, toNat_add_us hfits, toNat_one_add_us]
      omega
    simp [keydownPending, hlate]
  have hpass : replayPass cfg (1 + us cfg.playoutMs) (leadAwaited cfg) =
      pttTail cfg (1 + us cfg.playoutMs) (some (leadDown cfg)) (led cfg (1 + us cfg.playoutMs) (leadAwaited cfg)) := by
    rw [← hfront]
    rfl
  rw [hpass, pttTail, hpending, hled]
  simp [setPtt, emit, hup, hrelease]

end

/-- PTT does not chatter before a key-down exactly when there is no lead or the lead is
shorter than the tail. -/
theorem ptt_held_for_key_down_iff (cfg : Config) :
    NoChatter cfg ↔ cfg.pttLeadMs = 0 ∨ cfg.pttLeadMs < cfg.pttTailMs := by
  constructor
  · intro h
    by_contra hno
    obtain ⟨hlead, hle⟩ := not_or.mp hno
    obtain ⟨since, hlog, hheld⟩ := h true _ _ _ _ [] _ (leadAwaited_run hlead) (clockOk_slot cfg)
      (leadAwaited_led hlead) .start
    rw [leadAwaited_released hlead hle] at hlog
    have hsince : [.setPtt (1 + us cfg.playoutMs) false] = since := List.append_cancel_right hlog
    subst hsince
    rcases hheld with hno | ⟨later, t, earlier, heq, -⟩
    · exact hno (1 + us cfg.playoutMs) (by simp)
    · have hmem : Event.popped t (leadDown cfg) ∈ [.setPtt (1 + us cfg.playoutMs) false] := by simp [heq]
      simp at hmem
  · rintro hcase present acts s now e rest s' - hok hled hrun
    rcases hcase with hzero | hlt
    · -- without a lead an edge within the window is due, and the drain has applied it
      have hlater : now < e.atUs := front_applyDue cfg now _ _ e hled.front
      have hnear : e.atUs ≤ now := by
        have h := hled.near
        rw [hzero] at h
        simpa [us] using h
      exact absurd hlater (UInt64.not_lt.mpr hnear)
    · have hkept := hrun.invariant (Kept cfg e (led cfg now s).log) (kept_led hled hlt hok)
        fun _ _ _ hk hok hs => kept_step hk hled.down hlt hok hs
      exact hkept.held

def keyDownAhead : List Action := [.datagram 1000 (encode ⟨7, 0, [⟨1, keyDown⟩]⟩)]

theorem keyDownAhead_held :
    ∃ s s', Run (step .default) (ClockOk .default) (start true) keyDownAhead s ∧
      Led .default 145000 s ⟨151000, keyDown, 7, 1, 1000⟩ ∧
      Run (step .default) (fun s act => ClockOk .default s act ∧ Undisturbed .default s act)
        (replayPass .default 145000 s) [.pass 150000, .pass 151000] s' ∧
      ∃ since, s'.log = since ++ (led .default 145000 s).log ∧
        HeldUntilApplied ⟨151000, keyDown, 7, 1, 1000⟩ since := by
  obtain ⟨s, hrun, hs⟩ := run_of_exec_map (step .default) (ClockOk .default) (start true) keyDownAhead id
    (receiveDatagram .default 1000 (encode ⟨7, 0, [⟨1, keyDown⟩]⟩) (start true)) (by decide +kernel)
  rw [id_eq] at hs
  subst hs
  have hled : Led .default 145000 (receiveDatagram .default 1000 (encode ⟨7, 0, [⟨1, keyDown⟩]⟩) (start true))
      ⟨151000, keyDown, 7, 1, 1000⟩ := ⟨by decide +kernel, by decide, by decide +kernel, by decide⟩
  obtain ⟨s', hrun', -⟩ := run_of_exec_map (step .default)
    (fun s act => ClockOk .default s act ∧ Undisturbed .default s act)
    (replayPass .default 145000 (receiveDatagram .default 1000 (encode ⟨7, 0, [⟨1, keyDown⟩]⟩) (start true)))
    [.pass 150000, .pass 151000] (fun s => s.keyIsDown) true (by decide +kernel)
  exact ⟨_, s', hrun, hled, hrun', (ptt_held_for_key_down_iff .default).mpr (.inr (by decide)) true keyDownAhead _
    145000 _ _ s' hrun (by decide +kernel) hled hrun'⟩

def leadLong : Config := { Config.default with pttLeadMs := 200 }

/-- A lead longer than the tail: every pass within the lead switches PTT on and off. -/
theorem leadLong_chatters :
    (∃ s, Run (step leadLong) (ClockOk leadLong) (start true) (keyDownAhead ++ [.pass 5000, .pass 10000]) s ∧
      s.log.take 4 = [.setPtt 10000 false, .setPtt 10000 true, .setPtt 5000 false, .setPtt 5000 true] ∧
      s.queue = [⟨151000, keyDown, 7, 1, 1000⟩]) ∧
    ¬ NoChatter leadLong := by
  refine ⟨?_, fun h => ?_⟩
  · obtain ⟨s, hrun, hview⟩ := run_of_exec_map (step leadLong) (ClockOk leadLong) (start true)
      (keyDownAhead ++ [.pass 5000, .pass 10000]) (fun s => (s.log.take 4, s.queue))
      ([.setPtt 10000 false, .setPtt 10000 true, .setPtt 5000 false, .setPtt 5000 true],
        [⟨151000, keyDown, 7, 1, 1000⟩]) (by decide +kernel)
    obtain ⟨hlog, hqueue⟩ := Prod.mk.inj hview
    exact ⟨s, hrun, hlog, hqueue⟩
  · obtain ⟨s, hrun, hs⟩ := run_of_exec_map (step leadLong) (ClockOk leadLong) (start true) keyDownAhead id
      (receiveDatagram leadLong 1000 (encode ⟨7, 0, [⟨1, keyDown⟩]⟩) (start true)) (by decide +kernel)
    rw [id_eq] at hs
    subst hs
    have hled : Led leadLong 5000 (receiveDatagram leadLong 1000 (encode ⟨7, 0, [⟨1, keyDown⟩]⟩) (start true))
        ⟨151000, keyDown, 7, 1, 1000⟩ := ⟨by decide +kernel, by decide, by decide +kernel, by decide⟩
    obtain ⟨since, hlog, hheld⟩ := h true keyDownAhead _ 5000 _ [] _ hrun (by decide +kernel) hled .start
    have hreleased : (replayPass leadLong 5000
        (receiveDatagram leadLong 1000 (encode ⟨7, 0, [⟨1, keyDown⟩]⟩) (start true))).log =
        [.setPtt 5000 false] ++ (led leadLong 5000
          (receiveDatagram leadLong 1000 (encode ⟨7, 0, [⟨1, keyDown⟩]⟩) (start true))).log := by decide +kernel
    have hsince : [.setPtt 5000 false] = since := List.append_cancel_right (hreleased.symm.trans hlog)
    subst hsince
    rcases hheld with hno | ⟨later, t, earlier, heq, -⟩
    · exact hno 5000 (by simp)
    · have hmem : Event.popped t ⟨151000, keyDown, 7, 1, 1000⟩ ∈ [.setPtt 5000 false] := by simp [heq]
      simp at hmem

end Cwsd.RemoteKeyChatter

import Cwsd.RemoteKeyPort

namespace Cwsd.RemoteKeyPresence

open RemoteKeyProtocol RemoteKeyServer RemoteKeyPort Runs

/-- The server with the clock of the first pass that found the device present since
it was last absent. -/
structure Watched where
  server : Server
  presentSince : Option UInt64
  deriving DecidableEq, Repr

def presence (w : Watched) : Action → Option UInt64
  | .pass now => if w.server.port.present then some (w.presentSince.getD now) else none
  | .unplug => none
  | .datagram _ _ | .plug => w.presentSince

def watchStep (cfg : Config) (w : Watched) (act : Action) : Option Watched :=
  (step cfg w.server act).map fun s => ⟨s, presence w act⟩

/-- The clock does not go back, the device is not removed while its descriptor is
open, and the port is opened late only with the flags down. -/
def Attached (cfg : Config) (w : Watched) : Action → Prop
  | .datagram now _ => w.server.clockUs ≤ now
  | .pass now => w.server.clockUs ≤ now ∧ (Opens now w.server → QuietOpening cfg now w.server)
  | .unplug => w.server.port.fd = none
  | .plug => True

instance (cfg : Config) (w : Watched) (act : Action) : Decidable (Attached cfg w act) :=
  match act with
  | .datagram _ _ => inferInstanceAs (Decidable (_ ≤ _))
  | .pass _ => inferInstanceAs (Decidable (_ ∧ (_ → _)))
  | .unplug => inferInstanceAs (Decidable (_ = _))
  | .plug => inferInstanceAs (Decidable True)

structure Inv (w : Watched) : Prop where
  sound : SoundServer w.server
  check : w.server.lastIfaceCheck ≤ w.server.clockUs
  since : ∀ p, w.presentSince = some p → w.server.port.present = true ∧ p ≤ w.server.clockUs ∧
    (w.server.port.fd = none → w.server.lastIfaceCheck ≤ p)

variable {cfg : Config} {now : UInt64} {w : Watched}

theorem absent_closed {s : Server} (h : SoundServer s) (habsent : s.port.present = false) :
    s.port.fd = none := by
  rcases h.lines with hfd | ⟨hlive, -⟩
  · exact hfd
  · simp [Port.live, habsent] at hlive

theorem pass_attachment (cfg : Config) (h : Inv w) (hclock : w.server.clockUs ≤ now) :
    (replayPass cfg now w.server).port.present = w.server.port.present ∧
      (replayPass cfg now w.server).lastIfaceCheck ≤ now ∧
      ∀ p, presence w (.pass now) = some p → (replayPass cfg now w.server).port.fd = none →
        (replayPass cfg now w.server).lastIfaceCheck ≤ p ∧ ¬ 100000 < now - (replayPass cfg now w.server).lastIfaceCheck := by
  have ha := attachment_pass cfg now w.server
  have hfd : (replayPass cfg now w.server).port.fd = (reconnect now { w.server with clockUs := now }).port.fd :=
    congrArg Attachment.fd ha
  have hpresent : (replayPass cfg now w.server).port.present =
      (reconnect now { w.server with clockUs := now }).port.present := congrArg Attachment.present ha
  have hlast : (replayPass cfg now w.server).lastIfaceCheck =
      (reconnect now { w.server with clockUs := now }).lastIfaceCheck := congrArg Attachment.lastIfaceCheck ha
  have hle := UInt64.le_trans h.check hclock
  rw [hfd, hpresent, hlast]
  by_cases ho : Opens now w.server
  · have ho' : Opens now { w.server with clockUs := now } := ho
    rw [reconnect_opens ho']
    exact ⟨rfl, UInt64.le_refl now, fun p _ hnone => by cases hnone⟩
  · have ho' : ¬ Opens now { w.server with clockUs := now } := ho
    obtain ⟨hport, hcheck⟩ := reconnect_stays ho'
    rw [hport]
    refine ⟨rfl, ?_, ?_⟩
    · rcases hcheck with hc | ⟨hc, -⟩
      · rw [hc]
        exact hle
      · rw [hc]
        exact UInt64.le_refl now
    · intro p hp hnone
      cases hpres : w.server.port.present with
      | false =>
          rw [presence, hpres] at hp
          cases hp
      | true =>
          rw [presence, hpres, if_pos rfl] at hp
          have hc := hcheck.resolve_right fun hx => by simp [hpres] at hx
          rw [hc]
          refine ⟨?_, fun hlt => ho ⟨hnone, hlt, hpres⟩⟩
          cases hs : w.presentSince with
          | none =>
              rw [hs] at hp
              cases hp
              exact hle
          | some q =>
              rw [hs] at hp
              cases hp
              exact (h.since q hs).2.2 hnone

theorem inv_pass (h : Inv w) (hok : Attached cfg w (.pass now)) :
    Inv ⟨replayPass cfg now w.server, presence w (.pass now)⟩ := by
  obtain ⟨hpresent, hcheck, hclosed⟩ := pass_attachment cfg h hok.1
  have hclock : (replayPass cfg now w.server).clockUs = now := congrArg Receiver.clockUs (receiver_pass cfg now w.server)
  refine ⟨sound_pass h.sound hok.2, by rw [hclock]; exact hcheck, fun p hp => ?_⟩
  refine ⟨?_, ?_, fun hnone => (hclosed p hp hnone).1⟩
  · rw [hpresent]
    by_contra hno
    simp [presence, hno] at hp
  · rw [hclock]
    simp only [presence] at hp
    split at hp
    · cases hs : w.presentSince with
      | none =>
          rw [hs] at hp
          cases hp
          exact UInt64.le_refl now
      | some q =>
          rw [hs] at hp
          cases hp
          exact UInt64.le_trans (h.since q hs).2.1 hok.1
    · cases hp

theorem inv_datagram (bytes : List UInt8) (h : Inv w) (hok : Attached cfg w (.datagram now bytes)) :
    Inv ⟨receiveDatagram cfg now bytes w.server, w.presentSince⟩ := by
  rw [receiveDatagram]
  split
  · exact h
  · rename_i pkt hpkt
    have he := engine_handlePacket cfg now w.server pkt
    have hport : (handlePacket cfg now pkt w.server).port = w.server.port := congrArg Engine.port he
    have hkey : (handlePacket cfg now pkt w.server).keyIsDown = w.server.keyIsDown := congrArg Engine.keyIsDown he
    have hptt : (handlePacket cfg now pkt w.server).pttIsOn = w.server.pttIsOn := congrArg Engine.pttIsOn he
    have hcheck : (handlePacket cfg now pkt w.server).lastIfaceCheck = w.server.lastIfaceCheck :=
      congrArg Engine.lastIfaceCheck he
    have hclock := (clockUs_handlePacket cfg now w.server pkt).1
    refine ⟨?_, ?_, ?_⟩
    · rw [SoundServer, hport, hkey, hptt]
      exact h.sound
    · rw [hcheck, hclock]
      exact UInt64.le_trans h.check hok
    · intro p hp
      rw [hport, hcheck, hclock]
      obtain ⟨hpresent, hle, hclosed⟩ := h.since p hp
      exact ⟨hpresent, UInt64.le_trans hle hok, hclosed⟩

theorem inv_step {w' : Watched} {act : Action} (h : Inv w) (hok : Attached cfg w act)
    (hs : watchStep cfg w act = some w') : Inv w' := by
  cases act with
  | datagram now bytes =>
      cases hs
      exact inv_datagram bytes h hok
  | pass now =>
      cases hs
      exact inv_pass h hok
  | plug =>
      cases hs
      cases hpres : w.server.port.present with
      | true =>
          have hsame : w.server.port.plug = w.server.port := by rw [Port.plug, hpres, if_pos rfl]
          simp only [hsame]
          exact ⟨h.sound, h.check, h.since⟩
      | false =>
          have hfd := absent_closed h.sound hpres
          refine ⟨⟨.inl ?_, h.sound.covered⟩, h.check, fun p hp => ?_⟩
          · simp [Port.plug, hpres, hfd]
          · have habsurd := (h.since p hp).1
            rw [hpres] at habsurd
            cases habsurd
  | unplug =>
      cases hs
      exact ⟨⟨.inl hok, h.sound.covered⟩, h.check, fun p hp => by cases hp⟩

/-- The serial lines follow the flags, as long as the device is not removed under
an open descriptor and the port is opened late only with the flags down: after
every pass that has seen the device present for more than 100 ms, DTR shows the
key, RTS shows PTT, and DTR is not asserted without RTS. -/
theorem lines_follow_flags (cfg : Config) (present : Bool) (acts : List Action) (w : Watched)
    (h : Run (watchStep cfg) (Attached cfg) ⟨start present, none⟩ acts w) (now : UInt64)
    (hok : Attached cfg w (.pass now)) (p : UInt64) (hp : presence w (.pass now) = some p)
    (hlong : p.toNat + 100000 < now.toNat) :
    (replayPass cfg now w.server).port.dtr = (replayPass cfg now w.server).keyIsDown ∧
      (replayPass cfg now w.server).port.rts = (replayPass cfg now w.server).pttIsOn ∧
      ((replayPass cfg now w.server).port.dtr = true → (replayPass cfg now w.server).port.rts = true) := by
  have hstart : Inv ⟨start present, none⟩ := by
    refine ⟨⟨?_, by simp [start]⟩, UInt64.le_refl _, fun p hp => by cases hp⟩
    cases present with
    | true => exact .inr ⟨rfl, rfl, rfl⟩
    | false => exact .inl rfl
  have hinv := h.invariant Inv hstart fun _ _ _ hk hok hs => inv_step hk hok hs
  obtain ⟨-, hcheck, hclosed⟩ := pass_attachment cfg hinv hok.1
  have hsound := sound_pass hinv.sound hok.2
  rcases hsound.lines with hfd | ⟨-, hdtr, hrts⟩
  · obtain ⟨hle, hnot⟩ := hclosed p hp hfd
    refine absurd ?_ hnot
    have hle' := UInt64.le_iff_toNat_le.mp hle
    rw [UInt64.lt_iff_toNat_lt, UInt64.toNat_sub_of_le _ _ hcheck]
    simp only [UInt64.reduceToNat]
    omega
  · refine ⟨hdtr, hrts, ?_⟩
    rw [hdtr, hrts]
    exact hsound.covered

def lateDevice : List Action :=
  [.pass 200000, .plug, .pass 350000, .datagram 400000 (encode ⟨7, 0, [⟨1, keyDown⟩]⟩)]

theorem lateDevice_keyed :
    ∃ w, Run (watchStep .default) (Attached .default) ⟨start false, none⟩ lateDevice w ∧
      (replayPass .default 550000 w.server).keyIsDown = true ∧ (replayPass .default 550000 w.server).port.dtr = true := by
  obtain ⟨w, hrun, hview⟩ := run_of_exec_map (watchStep .default) (Attached .default) ⟨start false, none⟩
    lateDevice (fun w => (decide (Attached .default w (.pass 550000)), presence w (.pass 550000),
      (replayPass .default 550000 w.server).keyIsDown)) (true, some 350000, true) (by decide +kernel)
  simp only [Prod.mk.injEq, decide_eq_true_eq] at hview
  obtain ⟨hok, hp, hkey⟩ := hview
  have hlines := lines_follow_flags .default false lateDevice w hrun 550000 hok 350000 hp (by decide)
  exact ⟨w, hrun, hkey, hlines.1.trans hkey⟩

def replugged : List Action :=
  [.datagram 1000 (encode ⟨7, 0, [⟨1, keyDown⟩]⟩), .unplug, .plug, .pass 2000]

/-- The descriptor of the removed device is kept for ever: the engine believes the
key to be down, and the device has been back for 149 ms, but its line is not asserted. -/
theorem replugged_not_keyed :
    ∃ w, Run (watchStep .default) (fun _ _ => True) ⟨start true, none⟩ replugged w ∧
      presence w (.pass 151000) = some 2000 ∧ (replayPass .default 151000 w.server).keyIsDown = true ∧
      (replayPass .default 151000 w.server).port.present = true ∧
      (replayPass .default 151000 w.server).port.dtr = false := by
  obtain ⟨w, hrun, hview⟩ := run_of_exec_map (watchStep .default) (fun _ _ => True) ⟨start true, none⟩
    replugged (fun w => (presence w (.pass 151000), (replayPass .default 151000 w.server).keyIsDown,
      (replayPass .default 151000 w.server).port.present, (replayPass .default 151000 w.server).port.dtr))
    (some 2000, true, true, false) (by decide +kernel)
  simp only [Prod.mk.injEq] at hview
  exact ⟨w, hrun, hview⟩

end Cwsd.RemoteKeyPresence

import Cwsd.RemoteKeyServer
import Cwsd.Runs

namespace Cwsd.RemoteKeyPort

open RemoteKeyProtocol RemoteKeyServer Runs

/-- With no descriptor nothing is known of the lines; otherwise the descriptor is
live and the lines show the flags. In both cases the key implies PTT. -/
structure Sound (p : Port) (key ptt : Bool) : Prop where
  lines : p.fd = none ∨ p.live = true ∧ p.dtr = key ∧ p.rts = ptt
  covered : key = true → ptt = true

theorem setKey_fd (p : Port) (down : Bool) : (p.setKey down).fd = p.fd ∧ (p.setKey down).live = p.live := by
  simp only [Port.setKey, Port.setDtr]
  split
  · exact ⟨rfl, rfl⟩
  · split <;> exact ⟨rfl, rfl⟩

theorem setPtt_fd (p : Port) (on : Bool) : (p.setPtt on).fd = p.fd ∧ (p.setPtt on).live = p.live := by
  simp only [Port.setPtt, Port.setRts]
  split
  · exact ⟨rfl, rfl⟩
  · split <;> exact ⟨rfl, rfl⟩

theorem live_fd {p : Port} (h : p.live = true) : p.fd.isNone = false := by
  simp only [Port.live, Bool.and_eq_true, beq_iff_eq] at h
  rw [h.2]
  rfl

theorem setKey_live {p : Port} (h : p.live = true) (down : Bool) : p.setKey down = { p with dtr := down } := by
  simp [Port.setKey, Port.setDtr, live_fd h, h]

theorem setPtt_live {p : Port} (h : p.live = true) (on : Bool) : p.setPtt on = { p with rts := on } := by
  simp [Port.setPtt, Port.setRts, live_fd h, h]

theorem Sound.setKey {p : Port} {key ptt down : Bool} (h : Sound p key ptt) (hc : down = true → ptt = true) :
    Sound (p.setKey down) down ptt := by
  refine ⟨?_, hc⟩
  rcases h.lines with hfd | ⟨hlive, -, hrts⟩
  · exact .inl ((setKey_fd p down).1.trans hfd)
  · refine .inr ⟨(setKey_fd p down).2.trans hlive, ?_, ?_⟩
    · rw [setKey_live hlive]
    · rw [setKey_live hlive]
      exact hrts

theorem Sound.setPtt {p : Port} {key ptt on : Bool} (h : Sound p key ptt) (hc : key = true → on = true) :
    Sound (p.setPtt on) key on := by
  refine ⟨?_, hc⟩
  rcases h.lines with hfd | ⟨hlive, hdtr, -⟩
  · exact .inl ((setPtt_fd p on).1.trans hfd)
  · refine .inr ⟨(setPtt_fd p on).2.trans hlive, ?_, ?_⟩
    · rw [setPtt_live hlive]
      exact hdtr
    · rw [setPtt_live hlive]

theorem sound_safe {p : Port} (h : p.fd = none ∨ p.live = true) :
    Sound ((p.setKey false).setPtt false) false false := by
  have hkey : Sound (p.setKey false) false (p.setKey false).rts := by
    refine ⟨?_, by simp⟩
    rcases h with hfd | hlive
    · exact .inl ((setKey_fd p false).1.trans hfd)
    · exact .inr ⟨(setKey_fd p false).2.trans hlive, by rw [setKey_live hlive], rfl⟩
  exact hkey.setPtt (by simp)

def SoundServer (s : Server) : Prop := Sound s.port s.keyIsDown s.pttIsOn

variable {cfg : Config} {now : UInt64} {s : Server}

theorem SoundServer.connected (h : SoundServer s) : s.port.fd = none ∨ s.port.live = true :=
  h.lines.imp_right fun hl => hl.1

theorem sound_checkReset (h : SoundServer s ∨ (s.port.live = true ∧ s.resetRequested = true)) :
    SoundServer (checkReset now s) := by
  rw [checkReset]
  split
  · exact sound_safe (h.elim SoundServer.connected fun hl => .inr hl.1)
  · rename_i hr
    exact h.resolve_right fun hl => hr hl.2

theorem sound_checkSilence (h : SoundServer s ∨
      (s.port.live = true ∧ s.port.dtr = false ∧ s.port.rts = false ∧
        isSilent cfg (now - s.lastRxUs) s.lastRxUs = true)) :
    SoundServer (checkSilence cfg now s) := by
  rw [checkSilence]
  split
  · rw [silenceSafe]
    split
    · exact sound_safe (h.elim SoundServer.connected fun hl => .inr hl.1)
    · rename_i hflags
      rcases h with h | ⟨hlive, hdtr, hrts, -⟩
      · exact h
      · simp only [Bool.or_eq_true, not_or, Bool.not_eq_true] at hflags
        refine ⟨.inr ⟨hlive, ?_, ?_⟩, ?_⟩
        · exact hdtr.trans hflags.1.symm
        · exact hrts.trans hflags.2.symm
        · intro hk
          exact absurd hk (by simp [dropStream, hflags.1])
  · rename_i hno
    exact h.resolve_right fun hl => hno hl.2.2.2

theorem sound_checkWatchdog (h : SoundServer s) : SoundServer (checkWatchdog cfg now s) := by
  rw [checkWatchdog]
  split
  · exact Sound.setKey h (by simp)
  · exact h

theorem sound_applyEdge (se : ScheduledEdge) (h : SoundServer s) : SoundServer (applyEdge cfg now se s) := by
  have hptt : SoundServer (pttForEdge now se.isDown (emit (.popped now se) s)) ∧
      (se.isDown = true → (pttForEdge now se.isDown (emit (.popped now se) s)).pttIsOn = true) := by
    rw [pttForEdge]
    split
    · exact ⟨Sound.setPtt h fun _ => rfl, fun _ => rfl⟩
    · rename_i hno
      refine ⟨h, fun hd => ?_⟩
      simpa [hd] using hno
  rw [applyEdge, keyForEdge]
  split
  · exact hptt.1
  · split
    · exact Sound.setKey hptt.1 hptt.2
    · exact Sound.setKey hptt.1 hptt.2

theorem sound_applyDue (due : List ScheduledEdge) (h : SoundServer s) :
    SoundServer (applyDue cfg now due s) := by
  induction due generalizing s with
  | nil => exact h
  | cons se due ih =>
      rw [applyDue]
      split
      · exact ih (sound_applyEdge se h)
      · exact h

theorem sound_sequencePtt (next : Option ScheduledEdge) (h : SoundServer s) :
    SoundServer (sequencePtt cfg now next s) := by
  have hlead : SoundServer (pttLead cfg now next s) := by
    cases next with
    | none => exact h
    | some e =>
        simp only [pttLead]
        split
        · exact Sound.setPtt h fun _ => rfl
        · exact h
  rw [sequencePtt, pttTail]
  split
  · rename_i hoff
    simp only [Bool.and_eq_true, Bool.not_eq_true'] at hoff
    have hup : (pttLead cfg now next s).keyIsDown = false := hoff.1.1.2
    exact Sound.setPtt hlead fun hk => absurd (hup.symm.trans hk) Bool.false_ne_true
  · exact hlead

def Opens (now : UInt64) (s : Server) : Prop :=
  s.port.fd = none ∧ 100000 < now - s.lastIfaceCheck ∧ s.port.present = true

instance : Decidable (Opens now s) := inferInstanceAs (Decidable (_ ∧ _))

def QuietOpening (cfg : Config) (now : UInt64) (s : Server) : Prop :=
  s.keyIsDown = false ∧ s.pttIsOn = false ∨ s.resetRequested = true ∨
    isSilent cfg (now - s.lastRxUs) s.lastRxUs = true

instance : Decidable (QuietOpening cfg now s) := inferInstanceAs (Decidable (_ ∨ _))

theorem reconnect_opens (h : Opens now s) :
    reconnect now s = { s with
      lastIfaceCheck := now
      port := { s.port with fd := some s.port.generation, dtr := false, rts := false } } := by
  rw [reconnect, if_pos ⟨h.1, h.2.1⟩, Port.openPort, if_pos h.2.2]

theorem reconnect_stays (h : ¬ Opens now s) : (reconnect now s).port = s.port ∧
    ((reconnect now s).lastIfaceCheck = s.lastIfaceCheck ∨
      (reconnect now s).lastIfaceCheck = now ∧ s.port.present = false) := by
  rw [reconnect]
  split
  · rename_i htry
    have habsent : ¬ s.port.present = true := fun hp => h ⟨htry.1, htry.2, hp⟩
    have hclosed : s.port = { s.port with fd := none } := by rw [← htry.1]
    refine ⟨?_, .inr ⟨rfl, by simpa using habsent⟩⟩
    rw [Port.openPort, if_neg habsent]
    exact hclosed.symm
  · exact ⟨rfl, .inl rfl⟩

theorem sound_of_opening (hlive : s.port.live = true) (hdtr : s.port.dtr = false) (hrts : s.port.rts = false)
    (hcov : s.keyIsDown = true → s.pttIsOn = true) (hquiet : QuietOpening cfg now s) :
    SoundServer (checkSilence cfg now (checkReset now s)) := by
  by_cases hreset : s.resetRequested = true
  · exact sound_checkSilence (.inl (sound_checkReset (.inr ⟨hlive, hreset⟩)))
  · rw [checkReset, if_neg hreset]
    rcases hquiet with ⟨hk, hp⟩ | hr | hsilent
    · exact sound_checkSilence (.inl ⟨.inr ⟨hlive, hdtr.trans hk.symm, hrts.trans hp.symm⟩, hcov⟩)
    · exact absurd hr hreset
    · exact sound_checkSilence (.inr ⟨hlive, hdtr, hrts, hsilent⟩)

theorem sound_pass (h : SoundServer s) (hopen : Opens now s → QuietOpening cfg now s) :
    SoundServer (replayPass cfg now s) := by
  suffices hs : SoundServer (checkSilence cfg now (checkReset now (reconnect now { s with clockUs := now }))) from
    sound_sequencePtt _ (sound_applyDue _ (sound_checkWatchdog hs))
  by_cases ho : Opens now s
  · have ho' : Opens now { s with clockUs := now } := ho
    rw [reconnect_opens ho']
    exact sound_of_opening (by simp [Port.live, ho.2.2]) rfl rfl h.covered (hopen ho)
  · have ho' : ¬ Opens now { s with clockUs := now } := ho
    have hsound : SoundServer (reconnect now { s with clockUs := now }) := by
      have hport := (reconnect_stays ho').1
      obtain ⟨_, _, hreconnect⟩ := reconnect_eq now { s with clockUs := now }
      rw [SoundServer, hport, hreconnect]
      exact h
    exact sound_checkSilence (.inl (sound_checkReset (.inl hsound)))

/-- How the port is attached; only reconnect and the device change it. -/
structure Attachment where
  fd : Option Nat
  present : Bool
  generation : Nat
  lastIfaceCheck : UInt64

def attachment (s : Server) : Attachment :=
  ⟨s.port.fd, s.port.present, s.port.generation, s.lastIfaceCheck⟩

section

variable (cfg : Config) (now : UInt64) (s : Server)

@[simp] theorem attachment_setKey (down : Bool) : attachment (setKey now down s) = attachment s := by
  simp only [attachment, setKey, emit, Port.setKey, Port.setDtr]
  split
  · rfl
  · split <;> rfl

@[simp] theorem attachment_setPtt (on : Bool) : attachment (setPtt now on s) = attachment s := by
  simp only [attachment, setPtt, emit, Port.setPtt, Port.setRts]
  split
  · rfl
  · split <;> rfl

theorem attachment_safeState : attachment (safeState now s) = attachment s :=
  (attachment_setPtt now (setKey now false s) false).trans (attachment_setKey now s false)

theorem attachment_checks : attachment (checks cfg now s) = attachment (reconnect now s) := by
  have hreset (s : Server) : attachment (checkReset now s) = attachment s := by
    rw [checkReset]
    split
    · exact attachment_safeState now _
    · rfl
  have hsilence (s : Server) : attachment (checkSilence cfg now s) = attachment s := by
    rw [checkSilence, silenceSafe]
    split
    · split
      · exact attachment_safeState now s
      · rfl
    · rfl
  have hwatchdog (s : Server) : attachment (checkWatchdog cfg now s) = attachment s := by
    rw [checkWatchdog]
    split
    · exact attachment_setKey now s false
    · rfl
  rw [checks, hwatchdog, hsilence, hreset]

theorem attachment_applyDue (due : List ScheduledEdge) :
    attachment (applyDue cfg now due s) = attachment s := by
  have hptt (down : Bool) (s : Server) : attachment (pttForEdge now down s) = attachment s := by
    rw [pttForEdge]
    split
    · exact attachment_setPtt now s true
    · rfl
  have hkey (down : Bool) (s : Server) : attachment (keyForEdge cfg now down s) = attachment s := by
    rw [keyForEdge]
    split
    · rfl
    · split
      · exact attachment_setKey now s down
      · exact attachment_setKey now s down
  induction due generalizing s with
  | nil => rfl
  | cons se due ih =>
      rw [applyDue]
      split
      · rw [ih, applyEdge, hkey, hptt]
        rfl
      · rfl

theorem attachment_sequencePtt (next : Option ScheduledEdge) :
    attachment (sequencePtt cfg now next s) = attachment s := by
  have hlead : attachment (pttLead cfg now next s) = attachment s := by
    cases next with
    | none => rfl
    | some e =>
        simp only [pttLead]
        split
        · exact attachment_setPtt now s true
        · rfl
  rw [sequencePtt, pttTail, ← hlead]
  split
  · exact attachment_setPtt now _ false
  · rfl

theorem attachment_pass : attachment (replayPass cfg now s) = attachment (reconnect now { s with clockUs := now }) := by
  rw [replayPass, attachment_sequencePtt, drain, attachment_applyDue, attachment_checks]

end

end Cwsd.RemoteKeyPort

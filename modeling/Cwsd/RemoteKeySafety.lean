import Cwsd.RemoteKeyServer
import Cwsd.Runs

namespace Cwsd.RemoteKeySafety

open RemoteKeyProtocol RemoteKeyServer Runs

def keyCalls (log : List Event) : List (UInt64 × Bool) :=
  log.filterMap fun
    | .setKey now down => some (now, down)
    | _ => none

/-- The last call of set_key keyed the transmitter, at the given time, and it was up before. -/
def DownSince (t : UInt64) (calls : List (UInt64 × Bool)) : Prop :=
  ∃ earlier, calls = (t, true) :: earlier ∧ ∀ t', earlier.head? ≠ some (t', true)

def Up (calls : List (UInt64 × Bool)) : Prop := ∀ t, calls.head? ≠ some (t, true)

/-- What holds between the phases of a pass and between the steps of a run, at the
clock reading now. -/
structure Inv (now : UInt64) (s : Server) : Prop where
  rx : s.lastRxUs ≤ now
  unheard : s.lastRxUs = 0 → s.queue = [] ∧ s.keyIsDown = false
  ptt : s.keyIsDown = true → s.pttIsOn = true
  since : s.keyIsDown = true → s.keyDownSinceUs ≤ now
  down : s.keyIsDown = true → DownSince s.keyDownSinceUs (keyCalls s.log)
  up : s.keyIsDown = false → Up (keyCalls s.log)

variable {cfg : Config} {now : UInt64} {s : Server}

theorem inv_of_up (hrx : s.lastRxUs ≤ now) (hun : s.lastRxUs = 0 → s.queue = [])
    (hkey : s.keyIsDown = false) (hup : Up (keyCalls s.log)) : Inv now s :=
  ⟨hrx, fun h => ⟨hun h, hkey⟩, fun h => by simp [hkey] at h, fun h => by simp [hkey] at h,
    fun h => by simp [hkey] at h, fun _ => hup⟩

theorem Inv.later {now' : UInt64} (h : Inv now s) (hle : now ≤ now') : Inv now' s :=
  ⟨UInt64.le_trans h.rx hle, h.unheard, h.ptt, fun hk => UInt64.le_trans (h.since hk) hle, h.down, h.up⟩

theorem up_cons_false (calls : List (UInt64 × Bool)) (t : UInt64) : Up ((t, false) :: calls) := by
  intro t' h
  simp at h

theorem inv_safeState (h : Inv now s) : Inv now (safeState now s) :=
  inv_of_up h.rx (fun h0 => (h.unheard h0).1) rfl (up_cons_false (keyCalls s.log) now)

theorem inv_reconnect (h : Inv now s) : Inv now (reconnect now s) := by
  simp only [reconnect]
  split
  · exact ⟨h.rx, h.unheard, h.ptt, h.since, h.down, h.up⟩
  · exact h

theorem inv_checkReset (h : Inv now s) : Inv now (checkReset now s) := by
  simp only [checkReset]
  split
  · exact inv_safeState ⟨h.rx, h.unheard, h.ptt, h.since, h.down, h.up⟩
  · exact h

theorem inv_silenceSafe (h : Inv now s) : Inv now (silenceSafe now s) := by
  simp only [silenceSafe]
  split
  · exact inv_safeState h
  · exact h

theorem inv_dropStream (h : Inv now s) : Inv now (dropStream s) :=
  ⟨h.rx, fun h0 => ⟨rfl, (h.unheard h0).2⟩, h.ptt, h.since, h.down, h.up⟩

theorem inv_checkSilence (h : Inv now s) : Inv now (checkSilence cfg now s) := by
  simp only [checkSilence]
  split
  · exact inv_dropStream (inv_silenceSafe h)
  · exact h

theorem inv_checkWatchdog (h : Inv now s) : Inv now (checkWatchdog cfg now s) := by
  simp only [checkWatchdog]
  split
  · exact inv_of_up h.rx (fun h0 => (h.unheard h0).1) rfl (up_cons_false (keyCalls s.log) now)
  · exact h

theorem inv_pttOn (h : Inv now s) : Inv now { setPtt now true s with pttIsOn := true } :=
  ⟨h.rx, h.unheard, fun _ => rfl, h.since, h.down, h.up⟩

theorem inv_pttForEdge (down : Bool) (h : Inv now s) : Inv now (pttForEdge now down s) := by
  simp only [pttForEdge]
  split
  · exact inv_pttOn h
  · exact h

theorem pttForEdge_on {down : Bool} (s : Server) (h : down = true) : (pttForEdge now down s).pttIsOn = true := by
  simp only [pttForEdge, h]
  split
  · rfl
  · rename_i hon
    simpa using hon

theorem inv_keyForEdge {down : Bool} (h : Inv now s) (hptt : down = true → s.pttIsOn = true)
    (hrx : s.lastRxUs ≠ 0) : Inv now (keyForEdge cfg now down s) := by
  simp only [keyForEdge]
  split
  · exact h
  · rename_i hne
    cases down with
    | true =>
        have hup : s.keyIsDown = false := by simpa using hne
        exact ⟨h.rx, fun h0 => absurd h0 hrx, fun _ => hptt rfl, fun _ => UInt64.le_refl now,
          fun _ => ⟨keyCalls s.log, rfl, h.up hup⟩, fun hk => by simp at hk⟩
    | false => exact inv_of_up h.rx (fun h0 => absurd h0 hrx) rfl (up_cons_false (keyCalls s.log) now)

theorem inv_emit {e : Event} (he : keyCalls [e] = []) (h : Inv now s) : Inv now (emit e s) := by
  have hlog : keyCalls (e :: s.log) = keyCalls s.log := by
    rw [← List.singleton_append, keyCalls, List.filterMap_append]
    exact (congrArg (· ++ keyCalls s.log) he).trans (List.nil_append _)
  exact ⟨h.rx, h.unheard, h.ptt, h.since, fun hk => by rw [emit, hlog]; exact h.down hk,
    fun hk => by rw [emit, hlog]; exact h.up hk⟩

theorem inv_applyEdge (se : ScheduledEdge) (h : Inv now s) (hrx : s.lastRxUs ≠ 0) :
    Inv now (applyEdge cfg now se s) := by
  refine inv_keyForEdge (inv_pttForEdge _ (inv_emit rfl h)) (pttForEdge_on _) ?_
  have hsame := congrArg Receiver.lastRxUs (receiver_pttForEdge now (emit (.popped now se) s) se.isDown)
  exact fun h0 => hrx (hsame.symm.trans h0)

theorem inv_applyDue (due : List ScheduledEdge) (h : Inv now s) (hrx : due ≠ [] → s.lastRxUs ≠ 0) :
    Inv now (applyDue cfg now due s) := by
  induction due generalizing s with
  | nil => exact ⟨h.rx, fun h0 => ⟨rfl, (h.unheard h0).2⟩, h.ptt, h.since, h.down, h.up⟩
  | cons se due ih =>
      have hs := hrx (by simp)
      simp only [applyDue]
      split
      · have hsame := congrArg Receiver.lastRxUs (receiver_applyEdge cfg now s se)
        exact ih (inv_applyEdge se h hs) fun _ h0 => hs (hsame.symm.trans h0)
      · exact ⟨h.rx, fun h0 => absurd h0 hs, h.ptt, h.since, h.down, h.up⟩

theorem inv_drain (h : Inv now s) : Inv now (drain cfg now s) :=
  inv_applyDue s.queue h fun hne h0 => hne (h.unheard h0).1

theorem inv_pttLead (next : Option ScheduledEdge) (h : Inv now s) : Inv now (pttLead cfg now next s) := by
  simp only [pttLead]
  split
  · exact h
  · split
    · exact inv_pttOn h
    · exact h

theorem inv_pttTail (next : Option ScheduledEdge) (h : Inv now s) : Inv now (pttTail cfg now next s) := by
  simp only [pttTail]
  split
  · rename_i hoff
    simp only [Bool.and_eq_true, Bool.not_eq_true'] at hoff
    have hkey : s.keyIsDown = false := hoff.1.1.2
    exact inv_of_up h.rx (fun h0 => (h.unheard h0).1) hkey (h.up hkey)
  · exact h

theorem inv_pass (h : Inv now s) : Inv now (replayPass cfg now s) :=
  inv_pttTail _ (inv_pttLead _ (inv_drain (inv_checkWatchdog (inv_checkSilence
    (inv_checkReset (inv_reconnect ⟨h.rx, h.unheard, h.ptt, h.since, h.down, h.up⟩))))))

def WithinLimit (cfg : Config) (now : UInt64) (s : Server) : Prop :=
  s.keyIsDown = true → now - s.keyDownSinceUs ≤ us cfg.maxKeyDownMs

theorem withinLimit_checkWatchdog : WithinLimit cfg now (checkWatchdog cfg now s) := by
  simp only [WithinLimit, checkWatchdog]
  split
  · intro h
    cases h
  · rename_i hno
    intro hk
    exact UInt64.not_lt.mp fun hlt => hno ⟨hk, hlt⟩

theorem withinLimit_applyEdge (se : ScheduledEdge) (h : WithinLimit cfg now s) :
    WithinLimit cfg now (applyEdge cfg now se s) := by
  have hptt : WithinLimit cfg now (pttForEdge now se.isDown (emit (.popped now se) s)) := by
    simp only [pttForEdge]
    split <;> exact h
  simp only [applyEdge, keyForEdge]
  split
  · exact hptt
  · split
    · intro _
      rw [UInt64.sub_self]
      exact UInt64.zero_le
    · rename_i hup
      intro hk
      exact absurd hk hup

theorem withinLimit_applyDue (due : List ScheduledEdge) (h : WithinLimit cfg now s) :
    WithinLimit cfg now (applyDue cfg now due s) := by
  induction due generalizing s with
  | nil => exact h
  | cons se due ih =>
      simp only [applyDue]
      split
      · exact ih (withinLimit_applyEdge se h)
      · exact h

theorem withinLimit_pass : WithinLimit cfg now (replayPass cfg now s) := by
  have hdrain : WithinLimit cfg now (drain cfg now (checks cfg now { s with clockUs := now })) :=
    withinLimit_applyDue _ withinLimit_checkWatchdog
  simp only [replayPass, sequencePtt]
  generalize drain cfg now (checks cfg now { s with clockUs := now }) = s₁ at hdrain
  have hlead : WithinLimit cfg now (pttLead cfg now s₁.queue.head? s₁) := by
    simp only [pttLead]
    split
    · exact hdrain
    · split <;> exact hdrain
  simp only [pttTail]
  split
  · exact hlead
  · exact hlead

structure Safe (s : Server) : Prop where
  key : s.keyIsDown = false
  ptt : s.pttIsOn = false
  queue : s.queue = []
  anchor : s.haveAnchor = false

theorem safe_checkSilence (h : isSilent cfg (now - s.lastRxUs) s.lastRxUs = true) :
    Safe (checkSilence cfg now s) := by
  rw [checkSilence, if_pos h]
  cases hflags : s.keyIsDown || s.pttIsOn with
  | true =>
      rw [silenceSafe, hflags, if_pos rfl]
      exact ⟨rfl, rfl, rfl, rfl⟩
  | false =>
      rw [silenceSafe, hflags, if_neg Bool.false_ne_true]
      rw [Bool.or_eq_false_iff] at hflags
      exact ⟨hflags.1, hflags.2, rfl, rfl⟩

theorem Safe.rest_of_pass (h : Safe s) :
    sequencePtt cfg now (drain cfg now (checkWatchdog cfg now s)).queue.head?
      (drain cfg now (checkWatchdog cfg now s)) = s := by
  have hw : checkWatchdog cfg now s = s := by simp [checkWatchdog, h.key]
  have hd : drain cfg now s = s := by
    rw [drain, h.queue, applyDue, ← h.queue]
  rw [hw, hd, h.queue]
  simp [sequencePtt, pttLead, pttTail, h.ptt]

theorem safe_pass (h : isSilent cfg (now - s.lastRxUs) s.lastRxUs = true) : Safe (replayPass cfg now s) := by
  have hsafe : Safe (checkSilence cfg now (checkReset now (reconnect now { s with clockUs := now }))) :=
    safe_checkSilence (by rwa [lastRxUs_checkReset])
  rw [replayPass]
  exact hsafe.rest_of_pass.symm ▸ hsafe

theorem inv_pushEdge (e : Edge) (h : Inv now s) (hrx : s.lastRxUs ≠ 0) : Inv now (pushEdge cfg now s e) := by
  simp only [pushEdge, anchor]
  split
  · exact h
  · refine inv_emit rfl ?_
    split
    · exact ⟨h.rx, fun h0 => absurd h0 hrx, h.ptt, h.since, h.down, h.up⟩
    · exact ⟨h.rx, fun h0 => absurd h0 hrx, h.ptt, h.since, h.down, h.up⟩

theorem inv_openSession (pkt : Packet) (h : Inv now s) : Inv now (openSession pkt s) := by
  simp only [openSession]
  split
  · exact ⟨h.rx, fun h0 => ⟨rfl, (h.unheard h0).2⟩, h.ptt, h.since, h.down, h.up⟩
  · exact h

theorem inv_foldl_pushEdge (edges : List Edge) (h : Inv now s) (hrx : s.lastRxUs ≠ 0) :
    Inv now (edges.foldl (pushEdge cfg now) s) := by
  induction edges generalizing s with
  | nil => exact h
  | cons e edges ih => exact ih (inv_pushEdge e h hrx) (by rw [(clockUs_pushEdge cfg now s e).2]; exact hrx)

theorem inv_handlePacket (pkt : Packet) (h : Inv now s) (hpos : now ≠ 0) :
    Inv now (handlePacket cfg now pkt s) := by
  have hstore : Inv now (storeRx now { s with clockUs := now }) :=
    ⟨UInt64.le_refl now, fun h0 => absurd h0 hpos, h.ptt, h.since, h.down, h.up⟩
  refine inv_foldl_pushEdge _ (inv_openSession pkt hstore) ?_
  simp only [openSession]
  split <;> exact hpos

def ClockOk (s : Server) : Action → Prop
  | .datagram now _ | .pass now => 0 < now ∧ s.clockUs ≤ now
  | .plug | .unplug => True

instance (s : Server) (act : Action) : Decidable (ClockOk s act) :=
  match act with
  | .datagram _ _ | .pass _ => inferInstanceAs (Decidable (_ ∧ _))
  | .plug | .unplug => inferInstanceAs (Decidable True)

theorem inv_step {s' : Server} {act : Action} (h : Inv s.clockUs s) (hok : ClockOk s act)
    (hs : step cfg s act = some s') : Inv s'.clockUs s' := by
  cases act with
  | datagram now bytes =>
      cases hs
      simp only [receiveDatagram]
      split
      · exact h
      · rename_i pkt hpkt
        rw [(clockUs_handlePacket cfg now s pkt).1]
        exact inv_handlePacket pkt (h.later hok.2) (UInt64.ne_of_lt hok.1).symm
  | pass now =>
      cases hs
      rw [show (replayPass cfg now s).clockUs = now from congrArg Receiver.clockUs (receiver_pass cfg now s)]
      exact inv_pass (h.later hok.2)
  | plug =>
      cases hs
      exact ⟨h.rx, h.unheard, h.ptt, h.since, h.down, h.up⟩
  | unplug =>
      cases hs
      exact ⟨h.rx, h.unheard, h.ptt, h.since, h.down, h.up⟩

theorem toNat_sub_le_iff {a b : UInt64} (h : b ≤ a) (ms : UInt32) :
    a - b ≤ us ms ↔ a.toNat ≤ b.toNat + ms.toNat * 1000 := by
  rw [UInt64.le_iff_toNat_le, UInt64.toNat_sub_of_le _ _ h, toNat_us]
  omega

/-- Safety of the replay engine: in every run, after every replay pass, a key that
is down has PTT on, has been down since the pass that keyed it and not longer than
the limit, and belongs to a stream heard within the silence time; and a pass that
sees the stream silent ends with everything off and nothing to play. -/
theorem replay_pass_safe (cfg : Config) (present : Bool) (acts : List Action) (s : Server)
    (h : Run (step cfg) ClockOk (start present) acts s) (now : UInt64) (hok : ClockOk s (.pass now)) :
    ((replayPass cfg now s).keyIsDown = true →
      (replayPass cfg now s).pttIsOn = true ∧
      DownSince (replayPass cfg now s).keyDownSinceUs (keyCalls (replayPass cfg now s).log) ∧
      (replayPass cfg now s).keyDownSinceUs ≤ now ∧
      now.toNat ≤ (replayPass cfg now s).keyDownSinceUs.toNat + cfg.maxKeyDownMs.toNat * 1000 ∧
      (replayPass cfg now s).lastRxUs ≤ now ∧
      now.toNat ≤ (replayPass cfg now s).lastRxUs.toNat + cfg.silenceMs.toNat * 1000) ∧
    (s.lastRxUs ≠ 0 → s.lastRxUs.toNat + cfg.silenceMs.toNat * 1000 < now.toNat →
      (replayPass cfg now s).keyIsDown = false ∧ (replayPass cfg now s).pttIsOn = false ∧
      (replayPass cfg now s).queue = [] ∧ (replayPass cfg now s).haveAnchor = false) := by
  have hstart : Inv (start present).clockUs (start present) :=
    inv_of_up (UInt64.le_refl _) (fun _ => rfl) rfl (by simp [Up, start, keyCalls])
  have hinv := h.invariant (fun s => Inv s.clockUs s) hstart fun _ _ _ hk hok hs => inv_step hk hok hs
  have hbefore : Inv now s := hinv.later hok.2
  have hafter : Inv now (replayPass cfg now s) := inv_pass hbefore
  have hrx : (replayPass cfg now s).lastRxUs = s.lastRxUs := congrArg Receiver.lastRxUs (receiver_pass cfg now s)
  have hsilent (hne : s.lastRxUs ≠ 0) (hlt : ¬ now - s.lastRxUs ≤ us cfg.silenceMs) :
      Safe (replayPass cfg now s) :=
    safe_pass (by simp [isSilent, hne, UInt64.not_le.mp hlt])
  constructor
  · intro hkey
    have hheard : s.lastRxUs ≠ 0 := by
      intro h0
      rw [(hafter.unheard (hrx.trans h0)).2] at hkey
      cases hkey
    refine ⟨hafter.ptt hkey, hafter.down hkey, hafter.since hkey,
      (toNat_sub_le_iff (hafter.since hkey) _).mp (withinLimit_pass hkey), hafter.rx, ?_⟩
    rw [hrx, ← toNat_sub_le_iff hbefore.rx]
    by_contra hlt
    rw [(hsilent hheard hlt).key] at hkey
    cases hkey
  · intro hne hlt
    have hsafe := hsilent hne fun hle => by
      have := (toNat_sub_le_iff hbefore.rx _).mp hle
      omega
    exact ⟨hsafe.key, hsafe.ptt, hsafe.queue, hsafe.anchor⟩

def oneKeyDown : List Action := [.datagram 1000 (encode ⟨7, flagSessionReset, [⟨1, keyDown⟩]⟩)]

theorem oneKeyDown_safe :
    ∃ s, Run (step .default) ClockOk (start true) oneKeyDown s ∧
      (replayPass .default 151000 s).keyIsDown = true ∧ (replayPass .default 151000 s).pttIsOn = true ∧
      DownSince (replayPass .default 151000 s).keyDownSinceUs (keyCalls (replayPass .default 151000 s).log) := by
  obtain ⟨s, hrun, hview⟩ := run_of_exec_map (step .default) ClockOk (start true) oneKeyDown
    (fun s => (s.clockUs, (replayPass .default 151000 s).keyIsDown)) (1000, true) (by decide +kernel)
  obtain ⟨hclock, hkey⟩ := Prod.mk.inj hview
  have hsafe := replay_pass_safe .default true oneKeyDown s hrun 151000 ⟨by decide, by rw [hclock]; decide⟩
  exact ⟨s, hrun, hkey, (hsafe.1 hkey).1, (hsafe.1 hkey).2.1⟩

end Cwsd.RemoteKeySafety

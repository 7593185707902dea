import Cwsd.RemoteKeyPlayout

namespace Cwsd.RemoteKeyLead

open RemoteKeyProtocol RemoteKeyServer RemoteKeyStream RemoteKeyPlayout

/-- Datagrams with the clocks they are read at. -/
abbrev Arrivals := List (UInt64 × List UInt8)

def receiveAll (cfg : Config) (ds : Arrivals) (s : Server) : Server :=
  ds.foldl (fun s d => receiveDatagram cfg d.1 d.2 s) s

/-- The end of a pass: a wake time that is not after now is not waited for. -/
def nextPass (now : UInt64) (s : Server) : UInt64 :=
  if now < wake now s.queue.head? s then wake now s.queue.head? s else now

/-- The state before each pass and the time of the pass when passes take no time and
each runs exactly when the one before it asked for, with the datagrams that arrive
before each pass. -/
def idealRun (cfg : Config) (arrivals : Nat → Arrivals) (s : Server) (p : UInt64) : Nat → Server × UInt64
  | 0 => (s, p)
  | n + 1 =>
      let t := idealRun cfg arrivals s p n
      let s' := replayPass cfg t.2 (receiveAll cfg (arrivals n) t.1)
      (s', nextPass t.2 s')

/-- None of the datagrams opens a session. -/
def SessionGoesOn (cfg : Config) : Arrivals → Server → Prop
  | [], _ => True
  | d :: ds, s => (∀ pkt ∈ decode (d.2.take maxPacketBytes), opensSession pkt s = false) ∧
      SessionGoesOn cfg ds (receiveDatagram cfg d.1 d.2 s)

structure Quiet (cfg : Config) (ds : Arrivals) (now : UInt64) (s : Server) : Prop where
  session : SessionGoesOn cfg ds s
  heard : isSilent cfg (now - (receiveAll cfg ds s).lastRxUs) (receiveAll cfg ds s).lastRxUs = false

structure Waiting (e : ScheduledEdge) (s : Server) : Prop where
  off : s.pttIsOn = false
  front : s.queue.head? = some e

/-- The engine's events since a state, with no PTT-on stamped other than p says. -/
def Since (s₀ : Server) (p : UInt64 → Prop) (s : Server) : Prop :=
  ∃ new, s.log = new ++ s₀.log ∧ ∀ t, .setPtt t true ∈ new → p t

theorem Since.trans {s₀ s₁ s₂ : Server} {p q : UInt64 → Prop} (h : Since s₀ p s₁) (h' : Since s₁ q s₂) :
    Since s₀ (fun t => p t ∨ q t) s₂ := by
  obtain ⟨new, hlog, hp⟩ := h
  obtain ⟨new', hlog', hq⟩ := h'
  refine ⟨new' ++ new, by rw [hlog', hlog, List.append_assoc], fun t ht => ?_⟩
  rcases List.mem_append.mp ht with ht | ht
  · exact .inr (hq t ht)
  · exact .inl (hp t ht)

theorem Since.mono {s₀ s : Server} {p q : UInt64 → Prop} (h : Since s₀ p s) (himp : ∀ t, p t → q t) :
    Since s₀ q s := by
  obtain ⟨new, hlog, hp⟩ := h
  exact ⟨new, hlog, fun t ht => himp t (hp t ht)⟩

theorem Since.both {s₀ s₁ s₂ : Server} {p : UInt64 → Prop} (h : Since s₀ p s₁) (h' : Since s₁ p s₂) :
    Since s₀ p s₂ :=
  (h.trans h').mono fun _ hor => hor.elim id id

def Called (s₀ : Server) (t : UInt64) (s : Server) : Prop := ∃ new, s.log = new ++ s₀.log ∧ .setPtt t true ∈ new

theorem Called.later {s₀ s s' : Server} {t : UInt64} {p : UInt64 → Prop} (h : Called s₀ t s) (hs : Since s p s') :
    Called s₀ t s' := by
  obtain ⟨new, hlog, hmem⟩ := h
  obtain ⟨new', hlog', -⟩ := hs
  exact ⟨new' ++ new, by rw [hlog', hlog, List.append_assoc], List.mem_append_right new' hmem⟩

theorem Called.after {s₀ s s' : Server} {t : UInt64} {p : UInt64 → Prop} (hs : Since s₀ p s) (h : Called s t s') :
    Called s₀ t s' := by
  obtain ⟨new, hlog, -⟩ := hs
  obtain ⟨new', hlog', hmem⟩ := h
  exact ⟨new' ++ new, by rw [hlog', hlog, List.append_assoc], List.mem_append_left new hmem⟩

theorem Since.of_called {s₀ s : Server} {t : UInt64} {p : UInt64 → Prop} (hs : Since s₀ p s) (h : Called s₀ t s) :
    p t := by
  obtain ⟨new, hlog, hp⟩ := hs
  obtain ⟨new', hlog', hmem⟩ := h
  rw [List.append_cancel_right (hlog'.symm.trans hlog)] at hmem
  exact hp t hmem

theorem since_self (s : Server) (p : UInt64 → Prop) : Since s p s := ⟨[], rfl, by simp⟩

section

variable {cfg : Config} {now : UInt64} {s : Server}

theorem since_receive (p : UInt64 → Prop) (bytes : List UInt8) :
    Since s p (receiveDatagram cfg now bytes s) := by
  rw [receiveDatagram]
  split
  · exact since_self s p
  · rename_i pkt hpkt
    exact ⟨_, log_handlePacket cfg now pkt s, by simp⟩

theorem front_handlePacket {e : ScheduledEdge} {pkt : Packet} (hfront : s.queue.head? = some e)
    (hopens : opensSession pkt s = false) : (handlePacket cfg now pkt s).queue.head? = some e := by
  have hno : opensSession pkt (storeRx now { s with clockUs := now }) = false := hopens
  have hfront' : (storeRx now { s with clockUs := now }).queue.head? = some e := hfront
  rw [handlePacket, queue_enqueue, openSession, hno, if_neg Bool.false_ne_true, List.head?_append, hfront']
  rfl

theorem waiting_receive {e : ScheduledEdge} (bytes : List UInt8) (h : Waiting e s)
    (hopens : ∀ pkt ∈ decode (bytes.take maxPacketBytes), opensSession pkt s = false) :
    Waiting e (receiveDatagram cfg now bytes s) := by
  rw [receiveDatagram]
  split
  · exact h
  · rename_i pkt hpkt
    exact ⟨(congrArg Engine.pttIsOn (engine_handlePacket cfg now s pkt)).trans h.off,
      front_handlePacket h.front (hopens pkt hpkt)⟩

theorem since_receiveAll (cfg : Config) (ds : Arrivals) (s : Server) (p : UInt64 → Prop) :
    Since s p (receiveAll cfg ds s) := by
  induction ds generalizing s with
  | nil => exact since_self s p
  | cons d ds ih => exact (since_receive p d.2).both (ih _)

theorem waiting_receiveAll {e : ScheduledEdge} (ds : Arrivals) (hgo : SessionGoesOn cfg ds s) (h : Waiting e s) :
    Waiting e (receiveAll cfg ds s) := by
  induction ds generalizing s with
  | nil => exact h
  | cons d ds ih => exact ih hgo.2 (waiting_receive d.2 h hgo.1)

theorem since_checks (p : UInt64 → Prop) : Since s p (checks cfg now { s with clockUs := now }) := by
  have hclock : Since s p { s with clockUs := now } := ⟨[], rfl, by simp⟩
  have hreconnect (s : Server) : Since s p (reconnect now s) := by
    rw [reconnect]
    split
    · exact ⟨[], rfl, by simp⟩
    · exact since_self s p
  have hsafe (s : Server) : Since s p (safeState now s) :=
    ⟨[.forceSafe now, .setPtt now false, .setKey now false], rfl, by simp⟩
  have hreset (s : Server) : Since s p (checkReset now s) := by
    rw [checkReset]
    split
    · exact hsafe { s with resetRequested := false }
    · exact since_self s p
  have hsilence (s : Server) : Since s p (checkSilence cfg now s) := by
    simp only [checkSilence, silenceSafe]
    split
    · split
      · exact hsafe s
      · exact ⟨[], rfl, by simp⟩
    · exact since_self s p
  have hwatchdog (s : Server) : Since s p (checkWatchdog cfg now s) := by
    rw [checkWatchdog]
    split
    · exact ⟨[.setKey now false], rfl, by simp⟩
    · exact since_self s p
  exact (((hclock.both (hreconnect _)).both (hreset _)).both (hsilence _)).both (hwatchdog _)

theorem since_pttForEdge (down : Bool) (s : Server) : Since s (· = now) (pttForEdge now down s) := by
  rw [pttForEdge]
  split
  · exact ⟨[.setPtt now true], rfl, by simp⟩
  · exact since_self s _

theorem since_keyForEdge (down : Bool) (s : Server) (p : UInt64 → Prop) :
    Since s p (keyForEdge cfg now down s) := by
  rw [keyForEdge]
  split
  · exact since_self s p
  · split
    · exact ⟨[.setKey now down], rfl, by simp⟩
    · exact ⟨[.setKey now down], rfl, by simp⟩

theorem since_applyDue (due : List ScheduledEdge) (s : Server) :
    Since s (· = now) (applyDue cfg now due s) := by
  induction due generalizing s with
  | nil => exact ⟨[], rfl, by simp⟩
  | cons se due ih =>
      rw [applyDue]
      split
      · have hpop : Since s (· = now) (emit (.popped now se) s) := ⟨[.popped now se], rfl, by simp⟩
        exact ((hpop.both (since_pttForEdge se.isDown _)).both (since_keyForEdge se.isDown _ _)).both (ih _)
      · exact ⟨[], rfl, by simp⟩

theorem since_pttTail (next : Option ScheduledEdge) (s : Server) (p : UInt64 → Prop) :
    Since s p (pttTail cfg now next s) := by
  rw [pttTail]
  split
  · exact ⟨[.setPtt now false], rfl, by simp⟩
  · exact since_self s p

theorem since_sequencePtt (next : Option ScheduledEdge) : Since s (· = now) (sequencePtt cfg now next s) := by
  have hlead : Since s (· = now) (pttLead cfg now next s) := by
    cases next with
    | none => exact since_self s _
    | some e =>
        rw [pttLead]
        split
        · exact ⟨[.setPtt now true], rfl, by simp⟩
        · exact since_self s _
  exact hlead.both (since_pttTail next _ _)

theorem since_pass : Since s (· = now) (replayPass cfg now s) :=
  ((since_checks _).both (since_applyDue _ _)).both (since_sequencePtt _)

theorem waiting_checks {e : ScheduledEdge} (h : Waiting e s)
    (hsilent : isSilent cfg (now - s.lastRxUs) s.lastRxUs = false) :
    Waiting e (checks cfg now { s with clockUs := now }) := by
  have hreset : Waiting e (checkReset now (reconnect now { s with clockUs := now })) := by
    obtain ⟨_, _, hreconnect⟩ := reconnect_eq now { s with clockUs := now }
    rw [hreconnect, checkReset]
    split
    · exact ⟨rfl, h.front⟩
    · exact ⟨h.off, h.front⟩
  rw [checks_of_heard _ _ hsilent, checkWatchdog]
  split
  · exact ⟨hreset.off, hreset.front⟩
  · exact hreset

theorem drain_waiting {e : ScheduledEdge} (hfront : s.queue.head? = some e) (hlater : ¬ e.atUs ≤ now) :
    drain cfg now s = s := by
  obtain ⟨rest, hqueue⟩ : ∃ rest, s.queue = e :: rest := List.head?_eq_some_iff.mp hfront
  rw [drain, hqueue, applyDue, if_neg hlater, ← hqueue]

theorem pass_before_lead {e : ScheduledEdge} (h : Waiting e s)
    (hsilent : isSilent cfg (now - s.lastRxUs) s.lastRxUs = false)
    (hearly : now.toNat + cfg.pttLeadMs.toNat * 1000 < e.atUs.toNat) (p : UInt64 → Prop) :
    Waiting e (replayPass cfg now s) ∧ Since s p (replayPass cfg now s) := by
  have hchecked := waiting_checks h hsilent
  have hsince : Since s p (checks cfg now { s with clockUs := now }) := since_checks p
  rw [replayPass]
  generalize checks cfg now { s with clockUs := now } = c at hchecked hsince
  have hlater : ¬ e.atUs ≤ now := by
    rw [UInt64.le_iff_toNat_le]
    omega
  have hlead : pttLead cfg now (some e) c = c := by
    have hsum : (now + us cfg.pttLeadMs).toNat = now.toNat + cfg.pttLeadMs.toNat * 1000 :=
      toNat_add_us (Nat.lt_trans hearly e.atUs.toNat_lt)
    have hno : ¬ e.atUs ≤ now + us cfg.pttLeadMs := by
      rw [UInt64.le_iff_toNat_le, hsum]
      omega
    simp [pttLead, hno]
  have htail : pttTail cfg now (some e) c = c := by simp [pttTail, hchecked.off]
  rw [drain_waiting hchecked.front hlater, hchecked.front, sequencePtt, hlead, htail]
  exact ⟨hchecked, hsince⟩

theorem pass_at_lead {e : ScheduledEdge} (h : Waiting e s) (hdown : e.isDown = true)
    (hsilent : isSilent cfg (now - s.lastRxUs) s.lastRxUs = false)
    (hat : now.toNat + cfg.pttLeadMs.toNat * 1000 = e.atUs.toNat) :
    Called s now (replayPass cfg now s) := by
  have hchecked := waiting_checks h hsilent
  have hsince : Since s (fun _ => True) (checks cfg now { s with clockUs := now }) := since_checks _
  rw [replayPass]
  generalize checks cfg now { s with clockUs := now } = c at hchecked hsince
  refine Called.after hsince ?_
  by_cases hdue : e.atUs ≤ now
  · -- without a lead the drain of the edge itself switches PTT on
    have hptt : Called c now (pttForEdge now e.isDown (emit (.popped now e) c)) := by
      have hoff : (emit (.popped now e) c).pttIsOn = false := hchecked.off
      rw [pttForEdge, hdown, hoff, if_pos (by rfl)]
      exact ⟨[.setPtt now true, .popped now e], rfl, by simp⟩
    have hdrained : Called c now (drain cfg now c) := by
      obtain ⟨rest, hqueue⟩ : ∃ rest, c.queue = e :: rest := List.head?_eq_some_iff.mp hchecked.front
      rw [drain, hqueue, applyDue, if_pos hdue]
      exact (hptt.later (since_keyForEdge _ _ fun _ => True)).later (since_applyDue _ _)
    exact hdrained.later (since_sequencePtt _)
  · have hlead : pttLead cfg now (some e) c = { setPtt now true c with pttIsOn := true } := by
      have hsum : now + us cfg.pttLeadMs = e.atUs := by
        have hlt := e.atUs.toNat_lt
        rw [← hat] at hlt
        rw [← UInt64.toNat_inj, toNat_add_us hlt, hat]
      simp [pttLead, hdown, hchecked.off, hsum]
    rw [drain_waiting hchecked.front hdue, hchecked.front, sequencePtt, hlead]
    exact Called.later ⟨[.setPtt now true], rfl, by simp⟩ (since_pttTail (some e) _ fun _ => True)

theorem le_nextPass : now ≤ nextPass now s := by
  rw [nextPass]
  split
  · rename_i hlt
    exact UInt64.le_of_lt hlt
  · exact UInt64.le_refl _

/-- While PTT is off a pass asks for the next tick or for the edge, whichever is first;
a tick that wraps around is not waited for. -/
theorem toNat_nextPass {e : ScheduledEdge} (h : Waiting e s) (hlt : now < e.atUs) :
    (nextPass now s).toNat =
      if now.toNat + 5000 < 2 ^ 64 then min (now.toNat + 5000) e.atUs.toNat else now.toNat := by
  have hwake : wake now s.queue.head? s = if e.atUs < now + 5000 then e.atUs else now + 5000 := by
    simp [wake, h.front, h.off]
  have hsum : (now + 5000).toNat = (now.toNat + 5000) % 2 ^ 64 := by
    rw [UInt64.toNat_add]
    rfl
  have hnow := now.toNat_lt
  rw [UInt64.lt_iff_toNat_lt] at hlt
  rw [nextPass, hwake]
  by_cases hfits : now.toNat + 5000 < 2 ^ 64
  · rw [Nat.mod_eq_of_lt hfits] at hsum
    rw [if_pos hfits]
    by_cases hedge : e.atUs < now + 5000
    · rw [if_pos hedge, if_pos (UInt64.lt_iff_toNat_lt.mpr hlt)]
      rw [UInt64.lt_iff_toNat_lt, hsum] at hedge
      omega
    · have htick : now < now + 5000 := by
        rw [UInt64.lt_iff_toNat_lt, hsum]
        omega
      rw [if_neg hedge, if_pos htick, hsum]
      rw [UInt64.lt_iff_toNat_lt, hsum] at hedge
      omega
  · have hwrap : (now + 5000).toNat = now.toNat + 5000 - 2 ^ 64 := by omega
    have hedge : ¬ e.atUs < now + 5000 := by
      rw [UInt64.lt_iff_toNat_lt, hwrap]
      omega
    have htick : ¬ now < now + 5000 := by
      rw [UInt64.lt_iff_toNat_lt, hwrap]
      omega
    rw [if_neg hfits, if_neg hedge, if_neg htick]

end

section

variable {cfg : Config} {arrivals : Nat → Arrivals} {s : Server} {p : UInt64} {e : ScheduledEdge}

theorem le_idealRun (cfg : Config) (arrivals : Nat → Arrivals) (s : Server) (p : UInt64) (n : Nat) :
    (idealRun cfg arrivals s p n).2 ≤ (idealRun cfg arrivals s p (n + 1)).2 :=
  le_nextPass

theorem waiting_next {n : Nat} (h : Waiting e (idealRun cfg arrivals s p n).1)
    (hquiet : Quiet cfg (arrivals n) (idealRun cfg arrivals s p n).2 (idealRun cfg arrivals s p n).1)
    (hearly : (idealRun cfg arrivals s p n).2.toNat + cfg.pttLeadMs.toNat * 1000 < e.atUs.toNat)
    (q : UInt64 → Prop) :
    Waiting e (idealRun cfg arrivals s p (n + 1)).1 ∧
      Since (idealRun cfg arrivals s p n).1 q (idealRun cfg arrivals s p (n + 1)).1 ∧
      (idealRun cfg arrivals s p (n + 1)).2.toNat =
        if (idealRun cfg arrivals s p n).2.toNat + 5000 < 2 ^ 64 then
          min ((idealRun cfg arrivals s p n).2.toNat + 5000) e.atUs.toNat
        else (idealRun cfg arrivals s p n).2.toNat := by
  rw [idealRun]
  generalize idealRun cfg arrivals s p n = t at h hquiet hearly
  have hwait := waiting_receiveAll (arrivals n) hquiet.session h
  obtain ⟨hwait', hsince⟩ := pass_before_lead hwait hquiet.heard hearly q
  refine ⟨hwait', (since_receiveAll cfg (arrivals n) t.1 q).both hsince, toNat_nextPass hwait' ?_⟩
  rw [UInt64.lt_iff_toNat_lt]
  omega

theorem called_next {n : Nat} (h : Waiting e (idealRun cfg arrivals s p n).1) (hdown : e.isDown = true)
    (hquiet : Quiet cfg (arrivals n) (idealRun cfg arrivals s p n).2 (idealRun cfg arrivals s p n).1)
    (hat : (idealRun cfg arrivals s p n).2.toNat + cfg.pttLeadMs.toNat * 1000 = e.atUs.toNat) :
    Called (idealRun cfg arrivals s p n).1 (idealRun cfg arrivals s p n).2
      (idealRun cfg arrivals s p (n + 1)).1 := by
  rw [idealRun]
  generalize idealRun cfg arrivals s p n = t at h hquiet hat
  have hwait := waiting_receiveAll (arrivals n) hquiet.session h
  exact Called.after (since_receiveAll cfg (arrivals n) t.1 fun _ => True) (pass_at_lead hwait hdown hquiet.heard hat)

theorem since_next (n : Nat) : Since (idealRun cfg arrivals s p n).1 (· = (idealRun cfg arrivals s p n).2)
    (idealRun cfg arrivals s p (n + 1)).1 := by
  rw [idealRun]
  generalize idealRun cfg arrivals s p n = t
  exact (since_receiveAll cfg (arrivals n) t.1 _).both since_pass

/-- No reset and no silence intervene before the lead of the edge. -/
def QuietUntilLead (cfg : Config) (arrivals : Nat → Arrivals) (s : Server) (p : UInt64) (e : ScheduledEdge) : Prop :=
  ∀ n, (idealRun cfg arrivals s p n).2.toNat + cfg.pttLeadMs.toNat * 1000 ≤ e.atUs.toNat →
    Quiet cfg (arrivals n) (idealRun cfg arrivals s p n).2 (idealRun cfg arrivals s p n).1

theorem ticks_before_lead (h : Waiting e s) (hquiet : QuietUntilLead cfg arrivals s p e) (n : Nat)
    (hn : p.toNat + 5000 * n + cfg.pttLeadMs.toNat * 1000 ≤ e.atUs.toNat) :
    Waiting e (idealRun cfg arrivals s p n).1 ∧ (idealRun cfg arrivals s p n).2.toNat = p.toNat + 5000 * n ∧
      Since s (fun _ => True) (idealRun cfg arrivals s p n).1 := by
  induction n with
  | zero => exact ⟨h, rfl, since_self s _⟩
  | succ n ih =>
      obtain ⟨hwait, htime, hsince⟩ := ih (by omega)
      have hlt := e.atUs.toNat_lt
      obtain ⟨hwait', hsince', htime'⟩ := waiting_next hwait (hquiet n (by omega)) (by omega) fun _ => True
      refine ⟨hwait', ?_, hsince.both hsince'⟩
      rw [htime', htime, if_pos (by omega)]
      omega

theorem called_of_pass_at_lead (hquiet : QuietUntilLead cfg arrivals s p e) (hdown : e.isDown = true) {n : Nat}
    (hwait : Waiting e (idealRun cfg arrivals s p n).1)
    (hsince : Since s (fun _ => True) (idealRun cfg arrivals s p n).1)
    (hat : (idealRun cfg arrivals s p n).2.toNat + cfg.pttLeadMs.toNat * 1000 = e.atUs.toNat) :
    ∃ n t, Called s t (idealRun cfg arrivals s p n).1 ∧ t.toNat + cfg.pttLeadMs.toNat * 1000 ≤ e.atUs.toNat :=
  ⟨n + 1, _, Called.after hsince (called_next hwait hdown (hquiet n (Nat.le_of_eq hat)) hat), Nat.le_of_eq hat⟩

theorem not_called_of_missed (h : Waiting e s) (hpass : p.toNat + cfg.pttLeadMs.toNat * 1000 ≤ e.atUs.toNat)
    (hquiet : QuietUntilLead cfg arrivals s p e)
    (hmiss : ¬ 5000 ∣ e.atUs.toNat - cfg.pttLeadMs.toNat * 1000 - p.toNat)
    (hzero : cfg.pttLeadMs = 0 → 2 ^ 64 ≤ p.toNat + 5000 * ((e.atUs.toNat - p.toNat) / 5000 + 1)) (n : Nat) :
    Since s (fun t => e.atUs.toNat < t.toNat + cfg.pttLeadMs.toNat * 1000) (idealRun cfg arrivals s p n).1 := by
  -- either the passes are still on the grid of ticks before the lead, or they are past it
  suffices hinv : Since s (fun t => e.atUs.toNat < t.toNat + cfg.pttLeadMs.toNat * 1000)
      (idealRun cfg arrivals s p n).1 ∧
      ((Waiting e (idealRun cfg arrivals s p n).1 ∧
        (idealRun cfg arrivals s p n).2.toNat + cfg.pttLeadMs.toNat * 1000 < e.atUs.toNat ∧
        ∃ k, (idealRun cfg arrivals s p n).2.toNat = p.toNat + 5000 * k) ∨
      e.atUs.toNat < (idealRun cfg arrivals s p n).2.toNat + cfg.pttLeadMs.toNat * 1000) from hinv.1
  induction n with
  | zero =>
      refine ⟨since_self s _, .inl ⟨h, ?_, 0, rfl⟩⟩
      show p.toNat + cfg.pttLeadMs.toNat * 1000 < e.atUs.toNat
      refine Nat.lt_of_le_of_ne hpass fun heq => hmiss ?_
      rw [← heq]
      simp
  | succ n ih =>
      obtain ⟨hsince, hcase⟩ := ih
      rcases hcase with ⟨hwait, hearly, k, hk⟩ | hlate
      · obtain ⟨hwait', hsince', htime⟩ := waiting_next hwait (hquiet n (Nat.le_of_lt hearly)) hearly
          fun t => e.atUs.toNat < t.toNat + cfg.pttLeadMs.toNat * 1000
        refine ⟨hsince.both hsince', ?_⟩
        have hzero' : cfg.pttLeadMs.toNat = 0 → _ := fun hl => hzero (UInt32.toNat_inj.mp hl)
        split at htime
        · rcases Nat.lt_trichotomy (p.toNat + 5000 * (k + 1) + cfg.pttLeadMs.toNat * 1000) e.atUs.toNat with
            hlt | heq | hgt
          · exact .inl ⟨hwait', by omega, k + 1, by omega⟩
          · exact absurd ⟨k + 1, by omega⟩ hmiss
          · exact .inr (by omega)
        · exact .inl ⟨hwait', by omega, k, by omega⟩
      · refine ⟨hsince.both ((since_next n).mono fun t ht => ht ▸ hlate), .inr ?_⟩
        have hle := UInt64.le_iff_toNat_le.mp (le_idealRun cfg arrivals s p n)
        omega

end

theorem quiet_without_arrivals {cfg : Config} {s : Server} {p : UInt64} {e : ScheduledEdge} (hle : s.lastRxUs ≤ p)
    (hnear : e.atUs.toNat ≤ s.lastRxUs.toNat + cfg.silenceMs.toNat * 1000 + cfg.pttLeadMs.toNat * 1000) :
    QuietUntilLead cfg (fun _ => []) s p e := by
  have hrun (n : Nat) : (idealRun cfg (fun _ => []) s p n).1.lastRxUs = s.lastRxUs ∧
      s.lastRxUs ≤ (idealRun cfg (fun _ => []) s p n).2 := by
    induction n with
    | zero => exact ⟨rfl, hle⟩
    | succ n ih =>
        refine ⟨?_, UInt64.le_trans ih.2 (le_idealRun cfg _ s p n)⟩
        rw [← ih.1]
        exact congrArg Receiver.lastRxUs (receiver_pass cfg _ _)
  intro n hn
  obtain ⟨hrx, hge⟩ := hrun n
  refine ⟨trivial, ?_⟩
  have hloud : ¬ us cfg.silenceMs < (idealRun cfg (fun _ => []) s p n).2 - s.lastRxUs := by
    rw [UInt64.lt_iff_toNat_lt, toNat_us, UInt64.toNat_sub_of_le _ _ hge]
    omega
  rw [isSilent, receiveAll, List.foldl_nil, hrx]
  simp [hloud]

/-- PTT is switched on by the lead of a key-down exactly when a pass falls on it: when
it is a whole number of ticks after the pass that found PTT off or, without a lead,
when the last tick before the edge does not wrap around. -/
theorem ptt_leads_key_iff (cfg : Config) (arrivals : Nat → Arrivals) (s : Server) (p : UInt64) (e : ScheduledEdge)
    (h : Waiting e s) (hdown : e.isDown = true) (hpass : p.toNat + cfg.pttLeadMs.toNat * 1000 ≤ e.atUs.toNat)
    (hquiet : QuietUntilLead cfg arrivals s p e) :
    (∃ n t, Called s t (idealRun cfg arrivals s p n).1 ∧ t.toNat + cfg.pttLeadMs.toNat * 1000 ≤ e.atUs.toNat) ↔
      5000 ∣ e.atUs.toNat - cfg.pttLeadMs.toNat * 1000 - p.toNat ∨
        cfg.pttLeadMs = 0 ∧ p.toNat + 5000 * ((e.atUs.toNat - p.toNat) / 5000 + 1) < 2 ^ 64 := by
  constructor
  · rintro ⟨n, t, hcalled, hle⟩
    by_contra hno
    rw [not_or, not_and, Nat.not_lt] at hno
    have hlate := (not_called_of_missed h hpass hquiet hno.1 hno.2 n).of_called hcalled
    omega
  · rintro (⟨k, hk⟩ | ⟨hlead, hfits⟩)
    · obtain ⟨hwait, htime, hsince⟩ := ticks_before_lead h hquiet k (by omega)
      exact called_of_pass_at_lead hquiet hdown hwait hsince (by omega)
    · have hzero : cfg.pttLeadMs.toNat = 0 := by
        rw [hlead]
        rfl
      obtain ⟨k, hk⟩ : ∃ k, (e.atUs.toNat - p.toNat) / 5000 = k := ⟨_, rfl⟩
      rw [hk, Nat.mul_succ, ← Nat.add_assoc] at hfits
      obtain ⟨hwait, htime, hsince⟩ := ticks_before_lead h hquiet k (by omega)
      by_cases hlt : p.toNat + 5000 * k < e.atUs.toNat
      · -- the next tick is cut short at the edge
        obtain ⟨hwait', hsince', htime'⟩ := waiting_next hwait (hquiet k (by omega)) (by omega) fun _ => True
        rw [htime, if_pos hfits] at htime'
        exact called_of_pass_at_lead hquiet hdown hwait' (hsince.both hsince') (by omega)
      · exact called_of_pass_at_lead hquiet hdown hwait hsince (by omega)

/-- A key-down for the time 200000 is queued, and its lead begins at 190000. -/
def keyDownQueued : Server := handlePacket .default 50000 ⟨7, 0, [⟨1, keyDown⟩]⟩ (start true)

theorem keyDownQueued_waiting : Waiting ⟨200000, keyDown, 7, 1, 50000⟩ keyDownQueued :=
  ⟨by decide +kernel, by decide +kernel⟩

theorem keyDownQueued_led :
    QuietUntilLead .default (fun _ => []) keyDownQueued 185000 ⟨200000, keyDown, 7, 1, 50000⟩ ∧
    ∃ n t, Called keyDownQueued t (idealRun .default (fun _ => []) keyDownQueued 185000 n).1 ∧
      t.toNat + 10 * 1000 ≤ 200000 := by
  have hquiet : QuietUntilLead .default (fun _ => []) keyDownQueued 185000 ⟨200000, keyDown, 7, 1, 50000⟩ :=
    quiet_without_arrivals (by decide +kernel) (by decide +kernel)
  exact ⟨hquiet, (ptt_leads_key_iff .default (fun _ => []) keyDownQueued 185000 ⟨200000, keyDown, 7, 1, 50000⟩
    keyDownQueued_waiting (by decide) (by decide) hquiet).mpr (.inl (by decide))⟩

/-- With a pass at 186000 the next one is at 191000, and PTT comes 1 ms late. -/
theorem keyDownQueued_led_late :
    Config.default.pttLeadMs < Config.default.pttTailMs ∧
    Waiting ⟨200000, keyDown, 7, 1, 50000⟩ keyDownQueued ∧
    QuietUntilLead .default (fun _ => []) keyDownQueued 186000 ⟨200000, keyDown, 7, 1, 50000⟩ ∧
    (idealRun .default (fun _ => []) keyDownQueued 186000 2).1.log.head? = some (.setPtt 191000 true) ∧
    ¬ ∃ n t, Called keyDownQueued t (idealRun .default (fun _ => []) keyDownQueued 186000 n).1 ∧
      t.toNat + 10 * 1000 ≤ 200000 := by
  have hquiet : QuietUntilLead .default (fun _ => []) keyDownQueued 186000 ⟨200000, keyDown, 7, 1, 50000⟩ :=
    quiet_without_arrivals (by decide +kernel) (by decide +kernel)
  refine ⟨by decide, keyDownQueued_waiting, hquiet, by decide +kernel, ?_⟩
  rintro ⟨n, t, hcalled, hle⟩
  have hlate := (not_called_of_missed keyDownQueued_waiting (by decide) hquiet (by decide) (by decide) n).of_called
    hcalled
  exact absurd hle (Nat.not_le.mpr hlate)

end Cwsd.RemoteKeyLead

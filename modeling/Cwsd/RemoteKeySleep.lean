import Cwsd.RemoteKeyChatter

namespace Cwsd.RemoteKeySleep

open RemoteKeyProtocol RemoteKeyServer RemoteKeyStream RemoteKeyPlayout RemoteKeyChatter Runs

def wakeAfter (cfg : Config) (now : UInt64) (s : Server) : UInt64 :=
  wake now (replayPass cfg now s).queue.head? (replayPass cfg now s)

/-- The pass ends in a call of sleep_until_us, and for no longer than a tick. -/
def Sleeps (cfg : Config) (now : UInt64) (s : Server) : Prop :=
  now < wakeAfter cfg now s ∧ (wakeAfter cfg now s).toNat ≤ now.toNat + 5000

/-- The clock never goes back, and what a pass adds to it lies within 64 bits. -/
def ClockOk (cfg : Config) (s : Server) : Action → Prop
  | .datagram now _ => s.clockUs ≤ now
  | .pass now => s.clockUs ≤ now ∧ now.toNat + 5000 < 2 ^ 64 ∧ now.toNat + cfg.pttTailMs.toNat * 1000 < 2 ^ 64
  | .plug | .unplug => True

instance (cfg : Config) (s : Server) (act : Action) : Decidable (ClockOk cfg s act) :=
  match act with
  | .datagram _ _ => inferInstanceAs (Decidable (_ ≤ _))
  | .pass _ => inferInstanceAs (Decidable (_ ∧ _))
  | .plug | .unplug => inferInstanceAs (Decidable True)

def nextEdge (now : UInt64) (queue : List ScheduledEdge) : Option ScheduledEdge :=
  (queue.dropWhile fun e => decide (e.atUs ≤ now)).head?

def dueEdges (now : UInt64) (queue : List ScheduledEdge) : List ScheduledEdge :=
  queue.takeWhile fun e => decide (e.atUs ≤ now)

/-- A pass finds the key up and the release time of PTT behind it, the edges that are due
leave the key up, and PTT is on, or about to be switched on, for a key-down within the tail. -/
structure HeldForKeyDown (cfg : Config) (now : UInt64) (s : Server) : Prop where
  heard : isSilent cfg (now - s.lastRxUs) s.lastRxUs = false
  keyUp : s.keyIsDown = false ∨ s.resetRequested = true ∨ us cfg.maxKeyDownMs < now - s.keyDownSinceUs
  ups : ∀ e ∈ dueEdges now s.queue, e.isDown = false
  released : s.pttReleaseAtUs ≤ now
  next : ∃ e ∈ nextEdge now s.queue, e.isDown = true ∧ e.atUs < now + us cfg.pttTailMs ∧
    (s.pttIsOn = true ∧ s.resetRequested = false ∨ e.atUs ≤ now + us cfg.pttLeadMs)

def notePass (s : Server) (act : Action) (passes : List (Server × UInt64)) : List (Server × UInt64) :=
  match act with
  | .pass now => passes ++ [(s, now)]
  | .datagram _ _ | .plug | .unplug => passes

section

variable {cfg : Config} {now : UInt64} {s : Server}

theorem exists_wake_eq (s : Server) (next : Option ScheduledEdge) (hnext : ∀ e ∈ next, now < e.atUs)
    (htick : now.toNat + 5000 < 2 ^ 64) :
    ∃ soon : UInt64, now < soon ∧ soon.toNat ≤ now.toNat + 5000 ∧
      wake now next s =
        if s.pttIsOn && !s.keyIsDown && decide (s.pttReleaseAtUs < soon) then s.pttReleaseAtUs else soon := by
  have hsum : (now + 5000).toNat = now.toNat + 5000 := by
    rw [UInt64.toNat_add]
    exact Nat.mod_eq_of_lt htick
  have htickLt : now < now + 5000 := by
    rw [UInt64.lt_iff_toNat_lt, hsum]
    omega
  cases next with
  | none => exact ⟨_, htickLt, Nat.le_of_eq hsum, rfl⟩
  | some e =>
      by_cases hsooner : e.atUs < now + 5000
      · have hle := UInt64.lt_iff_toNat_lt.mp hsooner
        rw [hsum] at hle
        exact ⟨e.atUs, hnext e rfl, Nat.le_of_lt hle, by simp only [wake, if_pos hsooner]⟩
      · exact ⟨_, htickLt, Nat.le_of_eq hsum, by simp only [wake, if_neg hsooner]⟩

theorem lt_wake_iff (next : Option ScheduledEdge) (hnext : ∀ e ∈ next, now < e.atUs)
    (htick : now.toNat + 5000 < 2 ^ 64) :
    now < wake now next s ∧ (wake now next s).toNat ≤ now.toNat + 5000 ↔
      ¬ (s.pttIsOn = true ∧ s.keyIsDown = false ∧ s.pttReleaseAtUs ≤ now) := by
  obtain ⟨soon, hlt, hle, hwake⟩ := exists_wake_eq s next hnext htick
  rw [hwake]
  rw [UInt64.lt_iff_toNat_lt] at hlt
  by_cases hheld : s.pttIsOn = true ∧ s.keyIsDown = false
  · by_cases hrelease : s.pttReleaseAtUs < soon
    · simp only [hheld.1, hheld.2, hrelease, Bool.not_false, Bool.and_true, decide_true, if_true, true_and]
      rw [UInt64.lt_iff_toNat_lt] at hrelease ⊢
      rw [UInt64.le_iff_toNat_le]
      omega
    · rw [UInt64.lt_iff_toNat_lt] at hrelease
      simp only [UInt64.lt_iff_toNat_lt, UInt64.le_iff_toNat_le, hheld.1, hheld.2, true_and]
      simp only [hrelease, decide_false, Bool.and_false, Bool.false_eq_true, if_false]
      omega
  · have hnot : (s.pttIsOn && !s.keyIsDown && decide (s.pttReleaseAtUs < soon)) = false := by
      cases hptt : s.pttIsOn <;> cases hkey : s.keyIsDown <;> simp_all
    rw [hnot, if_neg Bool.false_ne_true]
    simp only [UInt64.lt_iff_toNat_lt]
    exact ⟨fun _ h => hheld ⟨h.1, h.2.1⟩, fun _ => ⟨hlt, hle⟩⟩

theorem queue_applyDue (due : List ScheduledEdge) :
    (applyDue cfg now due s).queue = due.dropWhile fun e => decide (e.atUs ≤ now) := by
  induction due generalizing s with
  | nil => rfl
  | cons e due ih =>
      rw [applyDue, List.dropWhile_cons]
      by_cases hdue : e.atUs ≤ now
      · rw [if_pos hdue, if_pos (decide_eq_true hdue), ih]
      · rw [if_neg hdue, if_neg (by simpa using hdue)]

/-- The key is down, or it went up in this pass and the tail has just begun. -/
def KeyedNow (cfg : Config) (now : UInt64) (s : Server) : Prop :=
  s.keyIsDown = true ∨ s.pttReleaseAtUs = now + us cfg.pttTailMs

theorem applyEdge_keyed (e : ScheduledEdge) (h : e.isDown = true ∨ KeyedNow cfg now s) :
    KeyedNow cfg now (applyEdge cfg now e s) := by
  have hptt (t : Server) : (pttForEdge now e.isDown t).keyIsDown = t.keyIsDown ∧
      (pttForEdge now e.isDown t).pttReleaseAtUs = t.pttReleaseAtUs := by
    rw [pttForEdge]
    split <;> exact ⟨rfl, rfl⟩
  obtain ⟨hkey, hrelease⟩ := hptt (emit (.popped now e) s)
  rw [applyEdge, keyForEdge]
  split
  · rename_i hsame
    rcases h with hdown | hkeyed
    · exact .inl (hsame ▸ hdown)
    · exact hkeyed.imp hkey.trans hrelease.trans
  · split
    · rename_i hdown
      exact .inl hdown
    · exact .inr rfl

theorem applyDue_keyed (due : List ScheduledEdge)
    (h : (∃ e ∈ dueEdges now due, e.isDown = true) ∨ KeyedNow cfg now s) :
    KeyedNow cfg now (applyDue cfg now due s) := by
  induction due generalizing s with
  | nil =>
      rcases h with ⟨e, he, -⟩ | hkeyed
      · cases he
      · exact hkeyed
  | cons se due ih =>
      rw [applyDue]
      split
      · rename_i hdue
        apply ih
        rcases h with ⟨e, he, hdown⟩ | hkeyed
        · rw [dueEdges, List.takeWhile_cons_of_pos (by simpa using hdue)] at he
          rcases List.mem_cons.mp he with rfl | he
          · exact .inr (applyEdge_keyed e (.inl hdown))
          · exact .inl ⟨e, he, hdown⟩
        · exact .inr (applyEdge_keyed se (.inr hkeyed))
      · rename_i hlater
        rcases h with ⟨e, he, -⟩ | hkeyed
        · rw [dueEdges, List.takeWhile_cons_of_neg (by simpa using hlater)] at he
          cases he
        · exact hkeyed

theorem applyDue_ups (due : List ScheduledEdge) (hkey : s.keyIsDown = false)
    (hups : ∀ e ∈ dueEdges now due, e.isDown = false) :
    (applyDue cfg now due s).keyIsDown = false ∧ (applyDue cfg now due s).pttIsOn = s.pttIsOn ∧
      (applyDue cfg now due s).pttReleaseAtUs = s.pttReleaseAtUs := by
  induction due generalizing s with
  | nil => exact ⟨hkey, rfl, rfl⟩
  | cons se due ih =>
      rw [applyDue]
      split
      · rename_i hdue
        rw [dueEdges, List.takeWhile_cons_of_pos (by simpa using hdue)] at hups
        have hup : se.isDown = false := hups se (by simp)
        have hedge : applyEdge cfg now se s = emit (.popped now se) s := by
          simp [applyEdge, pttForEdge, keyForEdge, hup, emit, hkey]
        rw [hedge]
        exact ih hkey fun e he => hups e (List.mem_cons_of_mem se he)
      · exact ⟨hkey, rfl, rfl⟩

theorem drain_up_iff (htail : 0 < cfg.pttTailMs.toNat) (hfits : now.toNat + cfg.pttTailMs.toNat * 1000 < 2 ^ 64) :
    ((drain cfg now s).keyIsDown = false ∧ (drain cfg now s).pttReleaseAtUs ≤ now) ↔
      s.keyIsDown = false ∧ (∀ e ∈ dueEdges now s.queue, e.isDown = false) ∧ s.pttReleaseAtUs ≤ now := by
  constructor
  · rintro ⟨hkey, hrelease⟩
    have hno : ¬ KeyedNow cfg now (drain cfg now s) := by
      rintro (hdown | hlate)
      · rw [hkey] at hdown
        cases hdown
      · rw [hlate, UInt64.le_iff_toNat_le, toNat_add_us hfits] at hrelease
        omega
    have hkey' : s.keyIsDown = false :=
      Bool.eq_false_iff.mpr fun h => hno (applyDue_keyed s.queue (.inr (.inl h)))
    have hups : ∀ e ∈ dueEdges now s.queue, e.isDown = false := fun e he =>
      Bool.eq_false_iff.mpr fun h => hno (applyDue_keyed s.queue (.inl ⟨e, he, h⟩))
    have hsame : (applyDue cfg now s.queue s).pttReleaseAtUs = s.pttReleaseAtUs :=
      (applyDue_ups s.queue hkey' hups).2.2
    exact ⟨hkey', hups, hsame ▸ hrelease⟩
  · rintro ⟨hkey, hups, hrelease⟩
    obtain ⟨hkey', -, hsame⟩ : (applyDue cfg now s.queue s).keyIsDown = false ∧
        (applyDue cfg now s.queue s).pttIsOn = s.pttIsOn ∧
        (applyDue cfg now s.queue s).pttReleaseAtUs = s.pttReleaseAtUs := applyDue_ups s.queue hkey hups
    exact ⟨hkey', hsame.symm ▸ hrelease⟩

theorem pttLead_on_iff (cfg : Config) (now : UInt64) (s : Server) (next : Option ScheduledEdge) :
    ((pttLead cfg now next s).pttIsOn = true ↔
      s.pttIsOn = true ∨ ∃ e ∈ next, e.isDown = true ∧ e.atUs ≤ now + us cfg.pttLeadMs) ∧
    (pttLead cfg now next s).keyIsDown = s.keyIsDown ∧
      (pttLead cfg now next s).pttReleaseAtUs = s.pttReleaseAtUs := by
  cases next with
  | none => simp [pttLead]
  | some e =>
      rw [pttLead]
      split
      · rename_i hlead
        simp only [Bool.and_eq_true, decide_eq_true_eq] at hlead
        exact ⟨⟨fun _ => .inr ⟨e, rfl, hlead.1.1, hlead.2⟩, fun _ => rfl⟩, rfl, rfl⟩
      · rename_i hlead
        simp only [Bool.and_eq_true, Bool.not_eq_true', decide_eq_true_eq, not_and] at hlead
        refine ⟨⟨.inl, fun h => h.elim id ?_⟩, rfl, rfl⟩
        rintro ⟨e', he, hdown, hnear⟩
        cases he
        exact Bool.not_eq_false _ |>.mp fun hoff => hlead ⟨hdown, hoff⟩ hnear

theorem pttTail_on_iff (cfg : Config) (now : UInt64) (s : Server) (next : Option ScheduledEdge) :
    ((pttTail cfg now next s).pttIsOn = true ↔
      s.pttIsOn = true ∧ (s.keyIsDown = false → s.pttReleaseAtUs ≤ now → keydownPending cfg now next = true)) ∧
    (pttTail cfg now next s).keyIsDown = s.keyIsDown ∧
      (pttTail cfg now next s).pttReleaseAtUs = s.pttReleaseAtUs := by
  rw [pttTail]
  split
  · rename_i hdrop
    simp only [Bool.and_eq_true, Bool.not_eq_true', decide_eq_true_eq] at hdrop
    obtain ⟨⟨⟨hon, hkey⟩, hrelease⟩, hnone⟩ := hdrop
    refine ⟨⟨fun hon' => absurd hon' Bool.false_ne_true, fun h => ?_⟩, rfl, rfl⟩
    rw [h.2 hkey hrelease] at hnone
    cases hnone
  · rename_i hkeep
    simp only [Bool.and_eq_true, Bool.not_eq_true', decide_eq_true_eq, not_and] at hkeep
    refine ⟨⟨fun hon => ⟨hon, fun hkey hrelease => ?_⟩, And.left⟩, rfl, rfl⟩
    exact Bool.not_eq_false _ |>.mp (hkeep ⟨⟨hon, hkey⟩, hrelease⟩)

theorem sequencePtt_held_iff (next : Option ScheduledEdge) :
    ((sequencePtt cfg now next s).pttIsOn = true ∧ (sequencePtt cfg now next s).keyIsDown = false ∧
      (sequencePtt cfg now next s).pttReleaseAtUs ≤ now) ↔
    (s.keyIsDown = false ∧ s.pttReleaseAtUs ≤ now) ∧ ∃ e ∈ next, e.isDown = true ∧
      e.atUs < now + us cfg.pttTailMs ∧ (s.pttIsOn = true ∨ e.atUs ≤ now + us cfg.pttLeadMs) := by
  obtain ⟨hlead, hkey, hrelease⟩ := pttLead_on_iff cfg now s next
  obtain ⟨htail, hkey', hrelease'⟩ := pttTail_on_iff cfg now (pttLead cfg now next s) next
  rw [hkey] at hkey'
  rw [hrelease] at hrelease'
  rw [sequencePtt, htail, hlead, hkey, hrelease, hkey', hrelease']
  cases next with
  | none => simp [keydownPending]
  | some e =>
      simp only [keydownPending, Option.any_some, Bool.and_eq_true, decide_eq_true_eq, Option.mem_some_iff,
        exists_eq_left']
      constructor
      · rintro ⟨⟨hon, hpending⟩, hup, hpast⟩
        obtain ⟨hdown, hsoon⟩ := hpending hup hpast
        exact ⟨⟨hup, hpast⟩, hdown, hsoon, hon.imp_right And.right⟩
      · rintro ⟨⟨hup, hpast⟩, hdown, hsoon, hon⟩
        exact ⟨⟨hon.imp_right fun hnear => ⟨hdown, hnear⟩, fun _ _ => ⟨hdown, hsoon⟩⟩, hup, hpast⟩

theorem checks_heard (h : isSilent cfg (now - s.lastRxUs) s.lastRxUs = false) :
    (checks cfg now { s with clockUs := now }).queue = s.queue ∧
    ((checks cfg now { s with clockUs := now }).keyIsDown = false ↔
      s.keyIsDown = false ∨ s.resetRequested = true ∨ us cfg.maxKeyDownMs < now - s.keyDownSinceUs) ∧
    ((checks cfg now { s with clockUs := now }).pttIsOn = true ↔ s.pttIsOn = true ∧ s.resetRequested = false) ∧
    (checks cfg now { s with clockUs := now }).pttReleaseAtUs = s.pttReleaseAtUs := by
  obtain ⟨_, _, hreconnect⟩ := reconnect_eq now { s with clockUs := now }
  rw [checks_of_heard _ _ h, hreconnect, checkReset]
  cases hpending : s.resetRequested with
  | true =>
      rw [if_pos rfl]
      simp [checkWatchdog, safeState, forceSafe, setPtt, setKey, emit]
  | false =>
      rw [if_neg Bool.false_ne_true, checkWatchdog]
      split
      · rename_i hstuck
        simp [setKey, emit, hstuck.2]
      · rename_i hfree
        simp only [not_and] at hfree
        refine ⟨rfl, ?_, by simp, rfl⟩
        constructor
        · exact .inl
        · rintro (hup | hno | hlong)
          · exact hup
          · cases hno
          · exact Bool.eq_false_iff.mpr fun hdown => hfree hdown hlong

theorem queue_silent (h : isSilent cfg (now - s.lastRxUs) s.lastRxUs = true) :
    (checks cfg now { s with clockUs := now }).queue = [] := by
  have hwatchdog (t : Server) : (checkWatchdog cfg now t).queue = t.queue := by
    rw [checkWatchdog]
    split <;> rfl
  rw [checks, hwatchdog, checkSilence, lastRxUs_checkReset, h, if_pos rfl]
  rfl

theorem pass_held_iff (htail : 0 < cfg.pttTailMs.toNat) (hfits : now.toNat + cfg.pttTailMs.toNat * 1000 < 2 ^ 64) :
    ((replayPass cfg now s).pttIsOn = true ∧ (replayPass cfg now s).keyIsDown = false ∧
      (replayPass cfg now s).pttReleaseAtUs ≤ now) ↔ HeldForKeyDown cfg now s := by
  have hqueue (c : Server) : (drain cfg now c).queue.head? = nextEdge now c.queue := by
    rw [drain, queue_applyDue, nextEdge]
  rw [replayPass, hqueue, sequencePtt_held_iff, drain_up_iff htail hfits]
  cases hsilent : isSilent cfg (now - s.lastRxUs) s.lastRxUs with
  | true =>
      rw [queue_silent hsilent]
      constructor
      · rintro ⟨-, e, he, -⟩
        cases he
      · intro h
        rw [h.heard] at hsilent
        cases hsilent
  | false =>
      obtain ⟨hq, hkey, hptt, hrelease⟩ := checks_heard hsilent
      have hdrain (hup : (checks cfg now { s with clockUs := now }).keyIsDown = false)
          (hups : ∀ e ∈ dueEdges now s.queue, e.isDown = false) :
          (drain cfg now (checks cfg now { s with clockUs := now })).pttIsOn =
            (checks cfg now { s with clockUs := now }).pttIsOn := by
        rw [drain, hq]
        exact (applyDue_ups s.queue hup hups).2.1
      rw [hq, hrelease]
      constructor
      · rintro ⟨⟨hup, hups, hpast⟩, e, he, hdown, hsoon, hon⟩
        rw [hdrain hup hups, hptt] at hon
        exact ⟨hsilent, hkey.mp hup, hups, hpast, e, he, hdown, hsoon, hon⟩
      · rintro ⟨-, hup, hups, hpast, e, he, hdown, hsoon, hon⟩
        refine ⟨⟨hkey.mpr hup, hups, hpast⟩, e, he, hdown, hsoon, ?_⟩
        rw [hdrain (hkey.mpr hup) hups, hptt]
        exact hon

theorem sleeps_iff (hlt : cfg.pttLeadMs < cfg.pttTailMs) (hok : ClockOk cfg s (.pass now)) :
    Sleeps cfg now s ↔ ¬ HeldForKeyDown cfg now s := by
  have hlt' := UInt32.lt_iff_toNat_lt.mp hlt
  have hfront : ∀ e ∈ (replayPass cfg now s).queue.head?, now < e.atUs := by
    have hq : (replayPass cfg now s).queue = (drain cfg now (checks cfg now { s with clockUs := now })).queue :=
      congrArg Stream.queue (stream_sequencePtt cfg now _ _)
    rw [hq]
    exact front_applyDue cfg now _ _
  rw [Sleeps, wakeAfter, lt_wake_iff _ hfront hok.2.1, pass_held_iff (by omega) hok.2.2]

end

/-- In every run, a pass ends in a sleep of at most a tick exactly when it does not find
PTT held past its release time for a key-down. -/
theorem pass_sleeps_iff (cfg : Config) (hlt : cfg.pttLeadMs < cfg.pttTailMs) (present : Bool) (acts : List Action)
    (s : Server) (passes : List (Server × UInt64))
    (h : Run (observed (step cfg) notePass) (fun t act => ClockOk cfg t.1 act) (start present, []) acts (s, passes)) :
    ∀ p ∈ passes, Sleeps cfg p.2 p.1 ↔ ¬ HeldForKeyDown cfg p.2 p.1 := by
  refine h.invariant (fun t => ∀ p ∈ t.2, Sleeps cfg p.2 p.1 ↔ ¬ HeldForKeyDown cfg p.2 p.1) (by simp) ?_
  rintro ⟨s, passes⟩ act ⟨s', passes'⟩ hinv hok hs
  obtain ⟨-, hnote⟩ := observed_eq_some.mp hs
  simp only at hinv hok hnote ⊢
  subst hnote
  cases act with
  | pass now =>
      intro p hp
      rcases List.mem_append.mp hp with hp | hp
      · exact hinv p hp
      · rw [List.mem_singleton] at hp
        subst hp
        exact sleeps_iff hlt hok
  | datagram | plug | unplug => exact hinv

def oneKeyDown : List Action := keyDownAhead ++ [.pass 100000, .pass 151000, .pass 156000]

theorem oneKeyDown_sleeps :
    ∃ s passes, Run (observed (step .default) notePass) (fun t act => ClockOk .default t.1 act) (start true, [])
        oneKeyDown (s, passes) ∧
      passes.map Prod.snd = [100000, 151000, 156000] ∧
      ∀ p ∈ passes, Sleeps .default p.2 p.1 ↔ ¬ HeldForKeyDown .default p.2 p.1 := by
  obtain ⟨⟨s, passes⟩, hrun, hview⟩ := run_of_exec_map (observed (step .default) notePass)
    (fun t act => ClockOk .default t.1 act) (start true, []) oneKeyDown (fun t => t.2.map Prod.snd)
    [100000, 151000, 156000] (by decide +kernel)
  exact ⟨s, passes, hrun, hview, pass_sleeps_iff .default (by decide) true oneKeyDown s passes hrun⟩

/-- From the lead of the first key-down to its slot the release time is still the initial
zero, and no pass sleeps. -/
theorem firstLead_spins :
    Config.default.pttLeadMs < Config.default.pttTailMs ∧
    ∃ s, Run (step .default) (ClockOk .default) (start true) (keyDownAhead ++ [.pass 141000, .pass 141001]) s ∧
      s.log.head? = some (.setPtt 141000 true) ∧ wakeAfter .default 141001 s = 0 ∧
      ¬ Sleeps .default 141001 s := by
  obtain ⟨s, hrun, hview⟩ := run_of_exec_map (step .default) (ClockOk .default) (start true)
    (keyDownAhead ++ [.pass 141000, .pass 141001]) (fun s => (s.log.head?, wakeAfter .default 141001 s))
    (some (.setPtt 141000 true), 0) (by decide +kernel)
  obtain ⟨hlog, hwake⟩ := Prod.mk.inj hview
  refine ⟨by decide, s, hrun, hlog, hwake, ?_⟩
  rw [Sleeps, hwake]
  exact fun h => absurd h.1 (by decide)

end Cwsd.RemoteKeySleep

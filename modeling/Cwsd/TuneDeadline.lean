import Cwsd.ServiceSteps
import Cwsd.Wraparound

namespace Cwsd.TuneDeadline

open KeyerState KeyerMachine KeyerPass CwDaemon Stoi UdpServer CwdaemonServer WinkeyerFeed FrameParser KeyLine
open KeyRelease MessageEffects ServiceSteps Runs Wraparound

section

variable {F : Type} [SinglePrecision F]

def feedBytes (bytes : List UInt8) (k : Keyer F) : Keyer F := bytes.foldl (fun k c => winkeyerData c k) k

/-- How often a command has released the key. -/
def releases (k : Keyer F) : Nat := (line k).calls.count (.keyUp .immediate)

theorem releases_feedBytes (bytes : List UInt8) (k : Keyer F) :
    releases (feedBytes bytes k) = ((parser k).keysAll bytes).count (.keyUp .immediate) + releases k := by
  induction bytes generalizing k with
  | nil => exact (Nat.zero_add _).symm
  | cons c bytes ih =>
      have hc : releases (winkeyerData c k) =
          ((parser k).keys c).count (.keyUp .immediate) + releases k := by
        rw [releases, line_winkeyerData, List.count_append]
        rfl
      have hrest := ih (winkeyerData c k)
      rw [parser_winkeyerData, hc] at hrest
      rw [keysAll, List.count_append, Nat.add_comm (((parser k).keys c).count _), Nat.add_assoc]
      exact hrest

theorem releases_pass (a : Answers) (k : Keyer F) : releases (updatePass a k) = releases k := by
  rcases line_pass a k with heq | ⟨st, next, -, -, heq⟩
  · rw [releases, heq, releases]
  · have hcalls : (transitionCalls st next).count (.keyUp .immediate) = 0 := by
      rw [List.count_eq_zero, transitionCalls]
      split <;> split <;> simp
    rw [releases, heq, List.count_append, hcalls, Nat.zero_add, releases]

theorem releases_update (hardware : Fin maxTransitionsPerTick → Answers) (k : Keyer F) :
    releases (update hardware k) = releases k :=
  update_invariant (fun k' => releases k' = releases k) hardware
    (fun i k' hk => (releases_pass (hardware i) k').trans hk) rfl

/-- The releases so far, with those that client_worker is passing on. -/
def pledged (s : Service F) : Nat := releases (feedBytes (toFeed s.client) s.keyer)

theorem pledged_of_nothing {s : Service F} (h : toFeed s.client = []) : pledged s = releases s.keyer := by
  rw [pledged, h]
  rfl

theorem pledged_of_balanced {s : Service F} (hready : Ready (parser s.keyer)) {bytes : List UInt8}
    (hfeed : toFeed s.client = bytes) (h : Balanced bytes) : pledged s = releases s.keyer := by
  rw [pledged, releases_feedBytes, hfeed, (h _ hready.1).2]
  exact Nat.zero_add _

theorem pledged_carrierOff {s : Service F} (hready : Ready (parser s.keyer)) (hfeed : toFeed s.client = carrierOff) :
    pledged s = releases s.keyer + 1 := by
  have hkeys : (parser s.keyer).keysAll carrierOff = [.keyUp .immediate] := (feedAll_key hready.1 0).2 rfl
  rw [pledged, releases_feedBytes, hfeed, hkeys]
  exact Nat.add_comm 1 _

theorem pledged_step {char : CharType} {act : KeyRelease.Action} {s s' : Service F}
    (hs : step char s act = some s') : pledged s ≤ pledged s' := by
  have hbegins (hkeyer : s'.keyer = s.keyer) (hfeed : toFeed s.client = []) : pledged s ≤ pledged s' := by
    rw [pledged_of_nothing hfeed, pledged, releases_feedBytes, hkeyer]
    exact Nat.le_add_left _ _
  cases advance_of_step hs with
  | quiet hesc hkeyer hfeed => rw [pledged, pledged, hkeyer, hfeed]
  | carrier hesc hkeyer hfeed hfeed' => exact hbegins hkeyer hfeed
  | message message wkData hm hfeed hw hkeyer hfeed' => exact hbegins hkeyer hfeed
  | byte hnone input hact c bytes hfeed hkeyer hfeed' =>
      rw [pledged, pledged, hkeyer, hfeed, hfeed']
      exact Nat.le_refl _
  | tick hnone hardware hkeyer hfeed =>
      have hparser : parser s'.keyer = parser s.keyer := by
        rw [hkeyer]
        exact parser_update _ s.keyer
      rw [pledged, pledged, releases_feedBytes, releases_feedBytes, hfeed, hparser, hkeyer, releases_update]

/-- A step of the service after the tune has started, with the real time that the clock of
client_worker shows. -/
inductive Moment
  | worker (arrived : Option (List UInt8)) (time : Nat)
  | keyer (hardware : Fin maxTransitionsPerTick → Readings)
  | stop

def Moment.action : Moment → KeyRelease.Action
  | .worker arrived time => .client ⟨arrived, UInt32.ofNat time⟩
  | .keyer hardware => .keyer hardware
  | .stop => .stop

/-- No datagram brings an abort or another tune. -/
def Moment.LeavesTune : Moment → Prop
  | .worker arrived _ => ∀ message ∈ receive arrived,
      isAbortSendCmd message = false ∧ ¬ (message.headD 0 = esc ∧ message.getD 1 0 = 'c'.toUInt8)
  | .keyer _ | .stop => True

def notePoll (s : Service F) : Moment → List Nat → List Nat
  | .worker _ time, polls => if s.client = .polling then polls ++ [time] else polls
  | .keyer _, polls | .stop, polls => polls

def watch (char : CharType) : Service F × List Nat → Moment → Option (Service F × List Nat) :=
  observed (fun s m => KeyRelease.step char s m.action) notePoll

/-- The key has been released since s, at the latest by the bytes that client_worker is passing on. -/
def TuneOver (s s' : Service F) : Prop := releases s.keyer < pledged s'

structure Tuning (deadline : UInt32) (base : Nat) (s : Service F) : Prop where
  tuning : s.isTuning = true
  deadline : s.tuneEndTime = deadline
  held : ∀ bytes, s.client ≠ .endTuning bytes
  kept : pledged s = base

theorem command_of_tuning {char : CharType} {message wkData : List UInt8} {speed : UInt8}
    (hw : toWinkeyer char message speed = .ok wkData) (htune : isTuningCommand wkData = true) :
    message.headD 0 = esc ∧ message.getD 1 0 = 'c'.toUInt8 := by
  simp only [toWinkeyer] at hw
  split at hw
  · cases hw
    rw [(balanced_textMessage char message speed).not_tuning] at htune
    cases htune
  · rename_i hesc
    refine ⟨not_not.mp hesc, ?_⟩
    cases escape_of_ok hw with
    | tune seconds hc => exact hc
    | speed | abort | weight | up | down | unknown => cases htune

variable {char : CharType} {deadline : UInt32} {base : Nat} {s s' : Service F}

theorem Tuning.releases_eq (h : Tuning deadline base s) (hfeed : toFeed s.client = []) : releases s.keyer = base :=
  (pledged_of_nothing hfeed).symm.trans h.kept

theorem tuning_handleMessage {message : List UInt8} {clock : UInt32} (h : Tuning deadline base s)
    (hpc : s.client = .receiving) (hready : Ready (parser s.keyer)) (habort : isAbortSendCmd message = false)
    (hc : ¬ (message.headD 0 = esc ∧ message.getD 1 0 = 'c'.toUInt8))
    (hs : handleMessage char message clock s = .ok s') : Tuning deadline base s' := by
  have hbase := h.releases_eq (by rw [hpc]; rfl)
  simp only [handleMessage, habort, Bool.and_false, Bool.false_eq_true, if_false] at hs
  split at hs
  · cases hs
    exact ⟨h.tuning, h.deadline, by simp, hbase⟩
  · cases hw : toWinkeyer char message (SinglePrecision.toUInt8 (getSpeed s.keyer)) with
    | error e =>
        rw [hw] at hs
        cases hs
    | ok wkData =>
        rw [hw] at hs
        cases hs
        have hnot : ¬ isTuningCommand wkData = true := fun h => hc (command_of_tuning hw h)
        have hbal : Balanced wkData := by
          refine (toWinkeyer_frames hw).resolve_right ?_
          rintro ⟨seconds, rfl⟩
          exact hnot rfl
        rw [startFeeding, if_neg hnot]
        have hkept : pledged { s with client := .feeding wkData } = releases s.keyer :=
          pledged_of_balanced hready rfl hbal
        exact ⟨h.tuning, h.deadline, by simp, hkept.trans hbase⟩

theorem tuning_client {arrived : Option (List UInt8)} {time : Nat} (h : Tuning deadline base s)
    (hserving : Serving (fun _ _ => True) s) (hleaves : (Moment.worker arrived time).LeavesTune)
    (hs : clientStep char ⟨arrived, UInt32.ofNat time⟩ s = .ok s') :
    if s.client = .polling ∧ deadline < UInt32.ofNat time then base < pledged s'
    else Tuning deadline base s' := by
  cases hpc : s.client with
  | polling =>
      have hready := hserving.fed (by rw [hpc]; rfl)
      have hbase := h.releases_eq (by rw [hpc]; rfl)
      simp only [clientStep, hpc, h.tuning, h.deadline, Bool.true_and, decide_eq_true_eq] at hs
      by_cases hdue : deadline < UInt32.ofNat time
      · rw [if_pos ⟨rfl, hdue⟩]
        rw [if_pos hdue] at hs
        have hover : pledged s' = releases s.keyer + 1 := by
          cases hs
          exact pledged_carrierOff hready rfl
        rw [hover, hbase]
        exact Nat.lt_succ_self base
      · rw [if_neg fun h => hdue h.2]
        rw [if_neg hdue] at hs
        cases hs
        exact ⟨rfl, rfl, by simp, hbase⟩
  | endTuning bytes => exact absurd hpc (h.held bytes)
  | receiving =>
      rw [if_neg (by simp)]
      have hready := hserving.fed (by rw [hpc]; rfl)
      have hbase := h.releases_eq (by rw [hpc]; rfl)
      cases hm : receive arrived with
      | none =>
          simp only [clientStep, hpc, hm] at hs
          cases hs
          exact ⟨h.tuning, h.deadline, by simp, hbase⟩
      | some message =>
          rw [clientStep_receiving char hpc hm] at hs
          obtain ⟨habort, hc⟩ := hleaves message hm
          exact tuning_handleMessage h hpc hready habort hc hs
  | loop =>
      rw [if_neg (by simp)]
      have hbase := h.releases_eq (by rw [hpc]; rfl)
      simp only [clientStep, hpc] at hs
      cases hs
      cases s.isRunning with
      | true | false => exact ⟨h.tuning, h.deadline, by simp, hbase⟩
  | feeding bytes =>
      rw [if_neg (by simp)]
      have hkept := h.kept
      rw [pledged, hpc] at hkept
      cases bytes with
      | nil | cons c bytes =>
          simp only [clientStep, hpc] at hs
          cases hs
          exact ⟨h.tuning, h.deadline, by simp, hkept⟩
  | returned =>
      rw [if_neg (by simp)]
      simp only [clientStep, hpc] at hs
      cases hs
      exact h

/-- The tune goes on until some poll has read a clock past the deadline, and is over from then on. -/
structure Watched (deadline : UInt32) (base : Nat) (w : Service F × List Nat) : Prop where
  serving : Serving (fun _ _ => True) w.1
  tune : (∃ τ ∈ w.2, deadline < UInt32.ofNat τ) ∧ base < pledged w.1 ∨
    (¬ ∃ τ ∈ w.2, deadline < UInt32.ofNat τ) ∧ Tuning deadline base w.1

theorem tuning_keyer (hardware : Fin maxTransitionsPerTick → Readings) (h : Tuning deadline base s) :
    Tuning deadline base (keyerStep hardware s) := by
  obtain ⟨htuning, hend, hclient⟩ := keyerStep_frame hardware s
  refine ⟨htuning.trans h.tuning, hend.trans h.deadline, by rw [hclient]; exact h.held, ?_⟩
  rw [← h.kept, pledged, pledged, releases_feedBytes, releases_feedBytes, hclient]
  cases hk : s.keyerThread with
  | loop | returned => simp only [keyerStep, hk]
  | ticking =>
      have hparser := parser_update (fun i => keyInterface (hardware i)) s.keyer
      simp only [keyerStep, hk]
      rw [releases_update]
      exact congrArg (fun p => (FrameParser.keysAll (toFeed s.client) p).count (.keyUp .immediate) + releases s.keyer)
        hparser

theorem watched_step {w w' : Service F × List Nat} {m : Moment} (h : Watched deadline base w)
    (hleaves : m.LeavesTune) (hs : watch char w m = some w') : Watched deadline base w' := by
  obtain ⟨hstep, hpolls⟩ := observed_eq_some.mp hs
  have hmono := pledged_step hstep
  refine ⟨serving_next h.serving hstep, ?_⟩
  rcases h.tune with ⟨⟨τ, hτ, hdue⟩, hover⟩ | ⟨hnone, htuning⟩
  · refine .inl ⟨⟨τ, ?_, hdue⟩, Nat.lt_of_lt_of_le hover hmono⟩
    rw [hpolls]
    cases m with
    | worker arrived time =>
        rw [notePoll]
        split
        · exact List.mem_append_left _ hτ
        · exact hτ
    | keyer hardware | stop => exact hτ
  · cases m with
    | worker arrived time =>
        have hnext := tuning_client htuning h.serving hleaves (step_client hstep)
        by_cases hpc : w.1.client = .polling
        · have hpolls : w'.2 = w.2 ++ [time] := hpolls.trans (if_pos hpc)
          simp only [hpc, true_and] at hnext
          split at hnext
          · rename_i hdue
            exact .inl ⟨⟨time, by simp [hpolls], hdue⟩, hnext⟩
          · rename_i hearly
            refine .inr ⟨?_, hnext⟩
            rintro ⟨τ, hτ, hdue⟩
            rw [hpolls, List.mem_append, List.mem_singleton] at hτ
            rcases hτ with hτ | rfl
            · exact hnone ⟨τ, hτ, hdue⟩
            · exact hearly hdue
        · have hpolls : w'.2 = w.2 := hpolls.trans (if_neg hpc)
          rw [if_neg fun h => hpc h.1] at hnext
          rw [hpolls]
          exact .inr ⟨hnone, hnext⟩
    | keyer hardware =>
        have hw : w'.1 = keyerStep hardware w.1 := (Option.some.inj hstep).symm
        have hpolls : w'.2 = w.2 := hpolls
        rw [hpolls, hw]
        exact .inr ⟨hnone, tuning_keyer hardware htuning⟩
    | stop =>
        have hw : w'.1 = { w.1 with isRunning := false } := (Option.some.inj hstep).symm
        have hpolls : w'.2 = w.2 := hpolls
        rw [hpolls, hw]
        exact .inr ⟨hnone, htuning.tuning, htuning.deadline, htuning.held, htuning.kept⟩

theorem watched_run {moments : List Moment} {w w' : Service F × List Nat} (h : Watched deadline base w)
    (hleaves : ∀ m ∈ moments, m.LeavesTune) (hrun : moments.foldlM (watch char) w = some w') :
    Watched deadline base w' := by
  induction moments generalizing w with
  | nil =>
      cases hrun
      exact h
  | cons m moments ih =>
      rw [List.foldlM_cons] at hrun
      obtain ⟨v, hv, hrun⟩ := Option.bind_eq_some_iff.mp hrun
      exact ih (watched_step h (hleaves m List.mem_cons_self) hv)
        (fun m' hm' => hleaves m' (List.mem_cons_of_mem m hm')) hrun

theorem Watched.over_iff {w : Service F × List Nat} (h : Watched deadline base w) :
    base < pledged w.1 ↔ ∃ τ ∈ w.2, deadline < UInt32.ofNat τ := by
  rcases h.tune with ⟨hsome, hover⟩ | ⟨hnone, htuning⟩
  · exact iff_of_true hover hsome
  · refine iff_of_false ?_ hnone
    rw [htuning.kept]
    exact Nat.lt_irrefl base

theorem watch_polls {m : Moment} {w w' : Service F × List Nat} (hs : watch char w m = some w') :
    w.2 <+: w'.2 ∧ w'.2.length ≤ w.2.length + 1 := by
  obtain ⟨-, hpolls⟩ := observed_eq_some.mp hs
  rw [hpolls]
  cases m with
  | worker arrived time =>
      simp only [notePoll]
      split
      · exact ⟨List.prefix_append _ _, by simp⟩
      · exact ⟨List.prefix_refl _, Nat.le_succ _⟩
  | keyer hardware | stop => exact ⟨List.prefix_refl _, Nat.le_succ _⟩

theorem watch_run_polls {moments : List Moment} {w w' : Service F × List Nat}
    (hrun : moments.foldlM (watch char) w = some w') : w.2 <+: w'.2 := by
  induction moments generalizing w with
  | nil =>
      cases hrun
      exact List.prefix_refl _
  | cons m moments ih =>
      rw [List.foldlM_cons] at hrun
      obtain ⟨v, hv, hrun⟩ := Option.bind_eq_some_iff.mp hrun
      exact (watch_polls hv).1.trans (ih hrun)

theorem polls_take {moments : List Moment} {w w' v : Service F × List Nat} {n : Nat}
    (hrun : moments.foldlM (watch char) w = some w') (hpart : (moments.take n).foldlM (watch char) w = some v) :
    v.2 = w'.2.take v.2.length := by
  rw [← List.take_append_drop n moments, List.foldlM_append, hpart] at hrun
  exact List.prefix_iff_eq_take.mp (watch_run_polls hrun)

theorem exists_polls_take {moments : List Moment} {w w' : Service F × List Nat} {m : Nat}
    (hm : w.2.length ≤ m) (hrun : moments.foldlM (watch char) w = some w') :
    ∃ n v, (moments.take n).foldlM (watch char) w = some v ∧ v.2 = w'.2.take m := by
  induction moments generalizing w with
  | nil =>
      cases hrun
      exact ⟨0, _, rfl, (List.take_of_length_le hm).symm⟩
  | cons moment moments ih =>
      rcases Nat.eq_or_lt_of_le hm with heq | hlt
      · refine ⟨0, w, rfl, ?_⟩
        rw [← heq]
        exact List.prefix_iff_eq_take.mp (watch_run_polls hrun)
      · rw [List.foldlM_cons] at hrun
        obtain ⟨v, hv, hrun⟩ := Option.bind_eq_some_iff.mp hrun
        obtain ⟨n, u, hu, heq⟩ := ih ((watch_polls hv).2.trans hlt) hrun
        refine ⟨n + 1, u, ?_, heq⟩
        rw [List.take_succ_cons, List.foldlM_cons, hv]
        exact hu

/-- After every number of steps that the service takes, the tune is over exactly when one of the
polls so far came later than the real time d. -/
def TuneTimely (char : CharType) (d : Int) (s : Service F) (moments : List Moment) : Prop :=
  ∀ n s' polls, (moments.take n).foldlM (watch char) (s, []) = some (s', polls) →
    (TuneOver s s' ↔ ∃ τ ∈ polls, d < (τ : Int))

/-- A tune is timely exactly when the deadline e that the code stores modulo 2 ^ 32 parts the clocks
of the polls where d parts their real times. -/
theorem tuneTimely_iff (hserving : Serving (fun _ _ => True) s) (htuning : Tuning deadline (releases s.keyer) s)
    {d e : Int} (he : (deadline.toNat : Int) = e % 2 ^ 32) {moments : List Moment}
    (hleaves : ∀ m ∈ moments, m.LeavesTune) {polls : List Nat}
    (hrun : moments.foldlM (watch char) (s, []) = some (s', polls)) (hsorted : polls.Pairwise (· ≤ ·)) :
    TuneTimely char d s moments ↔
      (∀ τ ∈ polls, (τ : Int) ≤ d → (τ : Int) % 2 ^ 32 ≤ e % 2 ^ 32) ∧
        ∀ τ ∈ polls.find? (fun τ : Nat => d < (τ : Int)), e % 2 ^ 32 < (τ : Int) % 2 ^ 32 := by
  have hread (τ : Nat) : deadline < UInt32.ofNat τ ↔ e % 2 ^ 32 < (τ : Int) % 2 ^ 32 := by
    rw [UInt32.lt_iff_toNat_lt, UInt32.toNat_ofNat', ← he]
    omega
  have hstart : Watched deadline (releases s.keyer) (s, []) := ⟨hserving, .inr ⟨by simp, htuning⟩⟩
  have hover {n : Nat} {v : Service F × List Nat} (hv : (moments.take n).foldlM (watch char) (s, []) = some v) :
      TuneOver s v.1 ↔ ∃ τ ∈ v.2, e % 2 ^ 32 < (τ : Int) % 2 ^ 32 := by
    rw [TuneOver, (watched_run hstart (fun m hm => hleaves m (List.mem_of_mem_take hm)) hv).over_iff]
    simp only [hread]
  have htimely : TuneTimely char d s moments ↔
      Timely (fun τ : Nat => d < (τ : Int)) (fun τ : Nat => e % 2 ^ 32 < (τ : Int) % 2 ^ 32) polls := by
    constructor
    · intro h m
      obtain ⟨n, v, hv, heq⟩ := exists_polls_take (m := m) (Nat.zero_le _) hrun
      rw [← heq, ← hover hv]
      exact h n v.1 v.2 hv
    · intro h n u seen hu
      have heq : seen = polls.take seen.length := polls_take hrun hu
      rw [hover hu, heq]
      exact h seen.length
  rw [htimely, timely_iff (fun hdue hle => hdue.trans_le (by exact_mod_cast hle)) hsorted]
  simp only [not_lt]

theorem keysAll_carrierOn {p : FrameParser} (hp : Ready p) : p.keysAll [0x0B, 1] = [.keyDown .immediate] := by
  obtain ⟨waiting, pending, index, arguments, remaining⟩ := p
  obtain ⟨⟨hw, hr⟩, ha⟩ := hp
  dsimp only at hw hr ha
  subst hw hr
  have hcmd : isWinkeyerCommand 0x0B = true := by decide
  have hbuf : isWinkeyerBufferedCommand 0x0B = false := by decide
  have hone : UInt8.ofNat (parameterCount 0x0B) = 1 := by decide
  cases arguments with
  | nil => exact absurd rfl ha
  | cons first others => simp [keysAll, keys, feed, Starts, execute, hcmd, hbuf, hone]

theorem toWinkeyer_tune {text : List UInt8} {n : Int} (hn : stoi text = .ok n) (speed : UInt8) :
    toWinkeyer char (esc :: 'c'.toUInt8 :: text) speed = .ok [0x0B, 1, UInt8.ofInt n] := by
  have h2 : ¬ 'c'.toUInt8 = '2'.toUInt8 := by decide
  have h4 : ¬ 'c'.toUInt8 = '4'.toUInt8 := by decide
  have h7 : ¬ 'c'.toUInt8 = '7'.toUInt8 := by decide
  rw [toWinkeyer, if_neg (by simp), List.getD_cons_succ, List.getD_cons_zero, escapeCommand, if_neg h2, if_neg h4,
    if_neg h7, if_pos rfl, List.drop_succ_cons, List.drop_succ_cons, List.drop_zero, hn]
  rfl

theorem tuning_of_datagram {payload text : List UInt8} {n : Int} {t : Nat}
    (hserving : Serving (fun _ _ => True) s) (hpc : s.client = .receiving)
    (hm : receive (some payload) = some (esc :: 'c'.toUInt8 :: text)) (hn : stoi text = .ok n)
    (hs : step char s (.client ⟨some payload, UInt32.ofNat t⟩) = some s') :
    Tuning (UInt32.ofNat t + 1000 * (UInt8.ofInt n).toUInt32) (releases s'.keyer) s' := by
  have hkeys := keysAll_carrierOn (hserving.fed (by rw [hpc]; rfl))
  have hstep := step_client hs
  rw [clientStep_receiving char hpc hm] at hstep
  have hcommand : ('c'.toUInt8 == '4'.toUInt8) = false ∧ ('c'.toUInt8 == '5'.toUInt8) = false := by decide
  have hexit : isExitCmd (esc :: 'c'.toUInt8 :: text) = false := by simp [isExitCmd, hcommand.2]
  have habort : isAbortSendCmd (esc :: 'c'.toUInt8 :: text) = false := by simp [isAbortSendCmd, hcommand.1]
  have hw (speed : UInt8) : toWinkeyer char (esc :: 'c'.toUInt8 :: text) speed = .ok [0x0B, 1, UInt8.ofInt n] :=
    toWinkeyer_tune hn speed
  simp only [handleMessage, hexit, habort, hw, Bool.and_false, Bool.false_eq_true, if_false] at hstep
  cases hstep
  refine ⟨rfl, rfl, by simp [startFeeding, isTuningCommand], ?_⟩
  have hfeed : toFeed (startFeeding [0x0B, 1, UInt8.ofInt n] (UInt32.ofNat t) s).client = [0x0B, 1] := rfl
  have hkeyer : (startFeeding [0x0B, 1, UInt8.ofInt n] (UInt32.ofNat t) s).keyer = s.keyer := rfl
  rw [pledged, releases_feedBytes, hfeed, hkeyer, hkeys]
  exact Nat.zero_add _

theorem toNat_ofNat_add (t : Nat) (length : UInt32) :
    (UInt32.ofNat t + length).toNat = (t + length.toNat) % 2 ^ 32 := by
  rw [UInt32.toNat_add, UInt32.toNat_ofNat', Nat.mod_add_mod]

theorem toNat_deadline (t : Nat) (n : Int) :
    ((UInt32.ofNat t + 1000 * (UInt8.ofInt n).toUInt32).toNat : Int) = (t + 1000 * (n % 256)) % 2 ^ 32 := by
  have hseconds := (UInt8.ofInt n).toNat_lt
  have hmul : (1000 * (UInt8.ofInt n).toUInt32).toNat = 1000 * (UInt8.ofInt n).toNat := by
    have hthousand : (1000 : UInt32).toNat = 1000 := rfl
    rw [UInt32.toNat_mul, UInt8.toNat_toUInt32, hthousand, Nat.mod_eq_of_lt (by omega)]
  rw [toNat_ofNat_add, hmul, ← toNat_ofInt n]
  push_cast
  rfl

end

end Cwsd.TuneDeadline

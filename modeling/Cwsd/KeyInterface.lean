import Cwsd.KeyRelease

namespace Cwsd.KeyInterface

open KeyerState KeyerMachine KeyerPass CwdaemonServer WinkeyerFeed KeyLine KeyRelease Runs

/-- A serial device as key_interface has it: each plugging in makes a device of its own, which keeps its
number, and a descriptor belongs to the device that it was opened on. -/
structure Port where
  device : Option Nat := none
  pluggedIn : Nat := 0
  /-- The control line of the device that is plugged in. -/
  dtr : Bool := false
  fd : Option Nat := none
  /-- Whether the member key has the bit of the line; before the first open_port it has any value. -/
  key : Bool
  deriving DecidableEq, Repr

def Port.attached (p : Port) : Bool := p.fd.isSome && p.fd == p.device

def Port.onKeyDown (p : Port) : Port := if p.attached then { p with dtr := p.dtr || p.key } else p

def Port.onKeyUp (p : Port) : Port := if p.attached then { p with dtr := p.dtr && !p.key } else p

def Port.call (e : Event) (p : Port) : Port :=
  match e with
  | .keyDown _ => p.onKeyDown
  | .keyUp _ => p.onKeyUp
  | _ => p

/-- A device comes with its line down. -/
def Port.plug (p : Port) : Port :=
  { p with device := some p.pluggedIn, pluggedIn := p.pluggedIn + 1, dtr := false }

def Port.unplug (p : Port) : Port := { p with device := none, dtr := false }

/-- The open of open_port, which may raise the line. -/
def Port.openDevice (raises : Bool) (p : Port) : Port :=
  { p with fd := p.device, dtr := p.dtr || (p.device.isSome && raises) }

/-- Where key_interface::update stands, at the steps of it that others can come between. -/
inductive Phase
  | idle
  | check
  | opening
  | setKey
  | clear
  deriving DecidableEq, Repr

/-- The service with its port; the divider counts the passes of keyer_worker up to the next check. -/
structure Station (F : Type) where
  service : Service F
  port : Port
  phase : Phase
  divider : Nat

inductive Action
  | service (act : KeyRelease.Action)
  | interface (raises : Bool)
  | plug
  | unplug

section

variable {F : Type} [SinglePrecision F]

def newCalls (before after : Keyer F) : List Event :=
  (line after).calls.take ((line after).calls.length - (line before).calls.length)

def interfaceStep (raises : Bool) (p : Port) : Phase → Option (Port × Phase)
  | .idle => none
  | .check => some (p, if p.attached then .idle else .opening)
  | .opening => some (p.openDevice raises, if p.device.isSome then .setKey else .idle)
  | .setKey => some ({ p with key := true }, .clear)
  | .clear => some (p.onKeyUp, .idle)

/-- keyer_worker has its interface looked at before its loop and after every hundredth tick, and does
nothing else meanwhile. -/
def step (char : CwDaemon.CharType) (s : Station F) : Action → Option (Station F)
  | .service act => do
      let service ← KeyRelease.step char s.service act
      let port := (newCalls s.service.keyer service.keyer).foldr Port.call s.port
      match act with
      | .keyer _ =>
          if s.phase ≠ .idle then none
          else if s.service.keyerThread = .ticking then
            some (if 100 ≤ s.divider + 1 then ⟨service, port, .check, 0⟩ else ⟨service, port, .idle,
              s.divider + 1⟩)
          else some ⟨service, port, .idle, s.divider⟩
      | _ => some ⟨service, port, s.phase, s.divider⟩
  | .interface raises => do
      let (port, phase) ← interfaceStep raises s.port s.phase
      return { s with port, phase }
  | .plug => if s.port.device.isSome then none else some { s with port := s.port.plug }
  | .unplug => some { s with port := s.port.unplug }

def start (a : Readings) (initialWpm : UInt8) (key : Bool) : Station F :=
  { service := CwdaemonServer.start a initialWpm, port := { key }, phase := .check, divider := 0 }

theorem calls_update (hardware : Fin maxTransitionsPerTick → Answers) (k : Keyer F) :
    ∃ added, (line (update hardware k)).calls = added ++ (line k).calls := by
  refine update_invariant (fun k' => ∃ added, (line k').calls = added ++ (line k).calls) hardware ?_ ⟨[], rfl⟩
  rintro i k' ⟨added, hadded⟩
  rcases line_pass (hardware i) k' with heq | ⟨st, next, -, -, heq⟩
  · exact ⟨added, by rw [heq, hadded]⟩
  · refine ⟨transitionCalls st next ++ added, ?_⟩
    rw [heq, List.append_assoc, ← hadded]

theorem calls_step {char : CwDaemon.CharType} {act : KeyRelease.Action} {s s' : Service F}
    (hs : KeyRelease.step char s act = some s') :
    ∃ added, (line s'.keyer).calls = added ++ (line s.keyer).calls := by
  have hsame {t : Service F} (h : t.keyer = s.keyer) :
    ∃ added, (line t.keyer).calls = added ++ (line s.keyer).calls :=
    ⟨[], by rw [h, List.nil_append]⟩
  cases act with
  | stop =>
      cases hs
      exact hsame rfl
  | keyer hardware =>
      cases hs
      simp only [keyerStep]
      split
      · exact hsame rfl
      · exact calls_update _ s.keyer
      · exact hsame rfl
  | client input =>
      have hclient := step_client hs
      simp only [clientStep] at hclient
      have hfed (c : UInt8) : ∃ added, (line (winkeyerData c s.keyer)).calls = added ++ (line s.keyer).calls :=
        ⟨(line s.keyer).parser.keys c, by rw [line_winkeyerData]⟩
      split at hclient
      · cases hclient
        exact hsame rfl
      · split at hclient
        · exact hsame (handleMessage_keyer hclient).1
        · cases hclient
          exact hsame rfl
      · cases hclient
        exact hsame rfl
      · cases hclient
        exact hfed _
      · cases hclient
        exact hsame rfl
      · cases hclient
        exact hsame rfl
      · cases hclient
        exact hfed _
      · cases hclient
        exact hsame rfl

omit [SinglePrecision F] in
theorem newCalls_append {before after : Keyer F}
    (h : ∃ added, (line after).calls = added ++ (line before).calls) :
    (line after).calls = newCalls before after ++ (line before).calls := by
  obtain ⟨added, hadded⟩ := h
  rw [newCalls, hadded, List.length_append, Nat.add_sub_cancel, List.take_left]

omit [SinglePrecision F] in
theorem newCalls_key (before after : Keyer F) : ∀ e ∈ newCalls before after, isKeyCall e = true := by
  intro e he
  exact (List.mem_filter.mp (List.mem_of_mem_take he)).2

/-- What the line has to do with the key calls that were made since the port was opened. -/
structure Follows (p : Port) (phase : Phase) (since : List Event) : Prop where
  attached : p.dtr = true → p.attached = true
  key : p.fd.isSome = true → phase = .setKey ∨ p.key = true
  line : p.attached = true → phase ≠ .setKey → phase ≠ .clear →
    (p.dtr = true ↔ ∃ source, since.head? = some (.keyDown source))
  device : ∀ d ∈ p.device, d < p.pluggedIn
  fd : ∀ d ∈ p.fd, d < p.pluggedIn

variable {p : Port} {phase : Phase} {since : List Event}

theorem attached_iff : p.attached = true ↔ p.fd.isSome = true ∧ p.fd = p.device := by
  rw [Port.attached, Bool.and_eq_true, beq_iff_eq]

theorem Follows.keyed (h : Follows p phase since) (hatt : p.attached = true) (hphase : phase ≠ .setKey) :
    p.key = true :=
  (h.key (attached_iff.mp hatt).1).resolve_left hphase

theorem onKeyDown_eq (p : Port) : p.onKeyDown = { p with dtr := p.dtr || (p.attached && p.key) } := by
  rw [Port.onKeyDown]
  cases p.attached <;> simp

theorem onKeyUp_eq (p : Port) : p.onKeyUp = { p with dtr := p.dtr && !(p.attached && p.key) } := by
  rw [Port.onKeyUp]
  cases p.attached <;> simp

theorem Follows.keyDown (h : Follows p phase since) (source : KeySource) :
    Follows p.onKeyDown phase (.keyDown source :: since) := by
  rw [onKeyDown_eq]
  refine ⟨fun hdtr => ?_, h.key, fun hatt hset hclear => ?_, h.device, h.fd⟩
  · rcases Bool.or_eq_true _ _ ▸ hdtr with hold | hnew
    · exact h.attached hold
    · exact (Bool.and_eq_true _ _ ▸ hnew).1
  · have hkey := h.keyed hatt hset
    have hatt' : p.attached = true := hatt
    simp [hatt', hkey]

theorem Follows.keyUp (h : Follows p phase since) (source : KeySource) :
    Follows p.onKeyUp phase (.keyUp source :: since) := by
  rw [onKeyUp_eq]
  refine ⟨fun hdtr => h.attached (Bool.and_eq_true _ _ ▸ hdtr).1, h.key, fun hatt hset hclear => ?_, h.device,
    h.fd⟩
  have hkey := h.keyed hatt hset
  have hatt' : p.attached = true := hatt
  simp [hatt', hkey]

theorem Follows.calls (h : Follows p phase since) {added : List Event}
    (hkey : ∀ e ∈ added, isKeyCall e = true) :
    Follows (added.foldr Port.call p) phase (added ++ since) := by
  induction added with
  | nil => exact h
  | cons e added ih =>
      have hrest := ih fun e he => hkey e (List.mem_cons_of_mem _ he)
      have he := hkey e List.mem_cons_self
      cases e with
      | keyDown source => exact hrest.keyDown source
      | keyUp source => exact hrest.keyUp source
      | _ => cases he

theorem Follows.checked (h : Follows p phase since) (hphase : phase = .idle ∨ phase = .check) {phase' : Phase} :
    Follows p phase' since := by
  have hset : phase ≠ .setKey := by rcases hphase with rfl | rfl <;> decide
  have hclear : phase ≠ .clear := by rcases hphase with rfl | rfl <;> decide
  exact ⟨h.attached, fun hfd => .inr ((h.key hfd).resolve_left hset), fun hatt _ _ => h.line hatt hset hclear,
    h.device, h.fd⟩

theorem Follows.interface (h : Follows p phase since) {raises : Bool} {p' : Port} {phase' : Phase}
    (hs : interfaceStep raises p phase = some (p', phase')) :
    Follows p' phase' (if phase = .clear then [] else since) := by
  cases phase with
  | idle => cases hs
  | check =>
      cases hs
      exact h.checked (.inr rfl)
  | opening =>
      cases hs
      refine ⟨fun hdtr => ?_, fun hfd => .inl (if_pos hfd), fun hatt hset _ => ?_, h.device, h.device⟩
      · have hdevice : p.device.isSome = true := by
          rcases Bool.or_eq_true _ _ ▸ hdtr with hold | hnew
          · obtain ⟨hfd, heq⟩ := attached_iff.mp (h.attached hold)
            rwa [heq] at hfd
          · exact (Bool.and_eq_true _ _ ▸ hnew).1
        exact attached_iff.mpr ⟨hdevice, rfl⟩
      · exact absurd (if_pos (attached_iff.mp hatt).1) hset
  | setKey =>
      cases hs
      exact ⟨h.attached, fun _ => .inr rfl, fun _ _ hclear => absurd rfl hclear, h.device, h.fd⟩
  | clear =>
      cases hs
      rw [onKeyUp_eq, if_pos rfl]
      have hkey (hatt : p.attached = true) : p.key = true := h.keyed hatt (by decide)
      refine ⟨fun hdtr => h.attached (Bool.and_eq_true _ _ ▸ hdtr).1, fun hfd => ?_,
        fun hatt _ _ => ?_, h.device, h.fd⟩
      · exact .inr ((h.key hfd).resolve_left (by decide))
      · have hatt' : p.attached = true := hatt
        simp [hatt', hkey hatt']

theorem Follows.plug (h : Follows p phase since) : Follows p.plug phase since := by
  have hout : ¬ p.plug.attached = true := by
    intro hatt
    obtain ⟨-, heq⟩ := attached_iff.mp hatt
    exact absurd (h.fd p.pluggedIn heq) (Nat.lt_irrefl _)
  refine ⟨fun hdtr => (by cases hdtr), h.key, fun hatt => absurd hatt hout, ?_, ?_⟩
  · intro d hd
    cases hd
    exact Nat.lt_succ_self _
  · exact fun d hd => Nat.lt_succ_of_lt (h.fd d hd)

theorem Follows.unplug (h : Follows p phase since) : Follows p.unplug phase since := by
  have hout : ¬ p.unplug.attached = true := by
    intro hatt
    obtain ⟨hfd, heq⟩ := attached_iff.mp hatt
    have hnone : p.fd = none := heq
    have hsome : p.fd.isSome = true := hfd
    rw [hnone] at hsome
    cases hsome
  exact ⟨fun hdtr => (by cases hdtr), h.key, fun hatt => absurd hatt hout, fun d hd => (by cases hd), h.fd⟩

def noteSince (char : CwDaemon.CharType) (s : Station F) (a : Action) (since : List Event) : List Event :=
  match a with
  | .service act =>
      ((KeyRelease.step char s.service act).map fun service =>
        newCalls s.service.keyer service.keyer).getD [] ++ since
  | .interface _ => if s.phase = .clear then [] else since
  | _ => since

theorem step_service {char : CwDaemon.CharType} {act : KeyRelease.Action} {s s' : Station F}
    (hs : step char s (.service act) = some s') :
    ∃ service, KeyRelease.step char s.service act = some service ∧ s'.service = service ∧
      s'.port = (newCalls s.service.keyer service.keyer).foldr Port.call s.port ∧
      ((∃ hardware, act = .keyer hardware) ∧ s.phase = .idle ∧
          (s'.phase = .idle ∨ s.service.keyerThread = .ticking ∧ s'.phase = .check) ∨
        (∀ hardware, act ≠ .keyer hardware) ∧ s'.phase = s.phase) := by
  simp only [step] at hs
  obtain ⟨service, hservice, hs⟩ := Option.bind_eq_some_iff.mp hs
  refine ⟨service, hservice, ?_⟩
  cases act with
  | client | stop =>
      cases hs
      exact ⟨rfl, rfl, .inr ⟨by simp, rfl⟩⟩
  | keyer hardware =>
      dsimp only at hs
      split at hs
      · cases hs
      · rename_i hphase
        have hidle := not_not.mp hphase
        split at hs
        · rename_i hticking
          cases hs
          split
          · exact ⟨rfl, rfl, .inl ⟨⟨hardware, rfl⟩, hidle, .inr ⟨hticking, rfl⟩⟩⟩
          · exact ⟨rfl, rfl, .inl ⟨⟨hardware, rfl⟩, hidle, .inl rfl⟩⟩
        · cases hs
          exact ⟨rfl, rfl, .inl ⟨⟨hardware, rfl⟩, hidle, .inl rfl⟩⟩

theorem follows_step {char : CwDaemon.CharType} {s s' : Station F} {a : Action}
    (h : Follows s.port s.phase since) (hs : step char s a = some s') :
    Follows s'.port s'.phase (noteSince char s a since) := by
  cases a with
  | service act =>
      obtain ⟨service, hservice, -, hport, hphase⟩ := step_service hs
      have hcalls : noteSince char s (.service act) since =
          newCalls s.service.keyer service.keyer ++ since := by
        simp only [noteSince, hservice, Option.map_some, Option.getD_some]
      rw [hport, hcalls]
      have hfollows := h.calls (newCalls_key s.service.keyer service.keyer)
      rcases hphase with ⟨-, hidle, -⟩ | ⟨-, hsame⟩
      · rw [hidle] at hfollows
        exact hfollows.checked (.inl rfl)
      · rwa [hsame]
  | interface raises =>
      obtain ⟨⟨port, phase⟩, hinterface, hs⟩ := Option.bind_eq_some_iff.mp hs
      cases hs
      exact h.interface hinterface
  | plug =>
      simp only [step] at hs
      split at hs
      · cases hs
      · cases hs
        exact h.plug
  | unplug =>
      cases hs
      exact h.unplug

theorem follows_start (a : Readings) (initialWpm : UInt8) (key : Bool) :
    Follows (start a initialWpm key : Station F).port (start a initialWpm key : Station F).phase [] :=
  ⟨fun hdtr => (by cases hdtr), fun hfd => (by cases hfd), fun hatt => (by cases hatt),
    fun d hd => (by cases hd),
    fun d hd => (by cases hd)⟩

/-- Whenever a device is plugged in or pulled, the line of a device is up only while key_interface holds it
open; and outside of open_port it is up exactly when the last key call since then was a key down. -/
theorem line_follows_keyer (char : CwDaemon.CharType) (a : Readings) (initialWpm : UInt8) (key : Bool)
    (acts : List Action) (s : Station F) (since : List Event)
    (h : Run (observed (step char) (noteSince char)) (fun _ _ => True) (start a initialWpm key, []) acts (s, since)) :
    (s.port.dtr = true → s.port.attached = true) ∧
      (s.port.attached = true → s.phase ≠ .setKey → s.phase ≠ .clear →
        (s.port.dtr = true ↔ ∃ source, since.head? = some (.keyDown source))) := by
  have hfollows := h.invariant (fun t => Follows t.1.port t.1.phase t.2) (follows_start a initialWpm key) ?_
  · exact ⟨hfollows.attached, hfollows.line⟩
  · intro t act t' ht _ hstep
    obtain ⟨hs, hnote⟩ := observed_eq_some.mp hstep
    rw [hnote]
    exact follows_step ht hs

def tunedOnPort : List Action :=
  [.plug, .interface true, .interface true, .interface true, .interface true] ++ tuneThenExit.map .service

theorem line_up_in_tune : ∃ (s : Station ℚ) (since : List Event),
    since.head? = some (.keyDown .immediate) ∧ s.port.dtr = true := by
  obtain ⟨⟨s, since⟩, hrun, hview⟩ := run_of_exec_map (observed (step .signed) (noteSince .signed))
    (fun _ _ => True)
    ((start (.at 0) 24 false, []) : Station ℚ × List Event) (tunedOnPort.take 9)
    (fun t => (t.1.port.attached, t.1.phase, t.2.head?)) (true, .idle, some (.keyDown .immediate))
      (by decide +kernel)
  simp only [Prod.mk.injEq] at hview
  obtain ⟨hatt, hphase, hsince⟩ := hview
  refine ⟨s, since, hsince, ?_⟩
  have hline := (line_follows_keyer .signed (.at 0) 24 false _ s since hrun).2 hatt
  rw [hphase] at hline
  exact (hline (by decide) (by decide)).mpr ⟨.immediate, hsince⟩

theorem since_step {char : CwDaemon.CharType} {s s' : Station F} {a : Action}
    (h : since <+: (line s.service.keyer).calls) (hs : step char s a = some s') :
    noteSince char s a since <+: (line s'.service.keyer).calls := by
  cases a with
  | service act =>
      obtain ⟨service, hservice, hsame, -⟩ := step_service hs
      rw [hsame, newCalls_append (calls_step hservice)]
      simp only [noteSince, hservice, Option.map_some, Option.getD_some]
      exact (List.prefix_append_right_inj _).mpr h
  | interface raises =>
      obtain ⟨⟨port, phase⟩, -, hs⟩ := Option.bind_eq_some_iff.mp hs
      cases hs
      rw [noteSince]
      split
      · exact List.nil_prefix
      · exact h
  | plug =>
      simp only [step] at hs
      split at hs
      · cases hs
      · cases hs
        exact h
  | unplug =>
      cases hs
      exact h

/-- No thread of the service ends while it holds the key. -/
def Released (s : Station F) : Action → Prop
  | .service act => KeyFree s.service act
  | _ => True

instance (s : Station F) (a : Action) : Decidable (Released s a) :=
  match a with
  | .service act => inferInstanceAs (Decidable (KeyFree s.service act))
  | .interface _ | .plug | .unplug => inferInstanceAs (Decidable True)

theorem out_step {char : CwDaemon.CharType} {s s' : Station F} {a : Action}
    (h : s.service.keyerThread = .returned → s.phase = .idle) (hs : step char s a = some s') :
    s'.service.keyerThread = .returned → s'.phase = .idle := by
  cases a with
  | service act =>
      obtain ⟨service, hservice, hsame, -, hphase⟩ := step_service hs
      intro hret
      rw [hsame] at hret
      rcases hphase with ⟨⟨hardware, rfl⟩, -, hidle | ⟨hticking, -⟩⟩ | ⟨hother, hphase⟩
      · exact hidle
      · cases hservice
        simp [keyerStep, hticking] at hret
      · rw [hphase]
        apply h
        cases act with
        | client input => rwa [(clientStep_state (step_client hservice)).2] at hret
        | keyer hardware => exact absurd rfl (hother hardware)
        | stop =>
            cases hservice
            exact hret
  | interface raises =>
      obtain ⟨⟨port, phase⟩, hinterface, hs⟩ := Option.bind_eq_some_iff.mp hs
      cases hs
      intro hret
      rw [h hret] at hinterface
      cases hinterface
  | plug =>
      simp only [step] at hs
      split at hs
      · cases hs
      · cases hs
        exact h
  | unplug =>
      cases hs
      exact h

theorem station_safe_step {char : CwDaemon.CharType} {s s' : Station F} {a : Action} (h : Safe s.service)
    (hok : Released s a) (hs : step char s a = some s') : Safe s'.service := by
  cases a with
  | service act =>
      obtain ⟨service, hservice, hsame, -⟩ := step_service hs
      rw [hsame]
      exact safe_step h hok hservice
  | interface raises =>
      obtain ⟨⟨port, phase⟩, -, hs⟩ := Option.bind_eq_some_iff.mp hs
      cases hs
      exact h
  | plug =>
      simp only [step] at hs
      split at hs
      · cases hs
      · cases hs
        exact h
  | unplug =>
      cases hs
      exact h

/-- As long as no thread ends while it holds the key, the line of the device is down once both threads have
returned, wherever the device was plugged in and pulled. -/
theorem line_down_at_the_end (char : CwDaemon.CharType) (a : Readings) (initialWpm : UInt8) (key : Bool)
    (acts : List Action) (s : Station F) (h : Run (step char) Released (start a initialWpm key) acts s)
    (hclient : s.service.client = .returned) (hkeyer : s.service.keyerThread = .returned) :
    s.port.dtr = false := by
  have hinv := h.invariant (fun s => Safe s.service ∧ (s.service.keyerThread = .returned → s.phase = .idle) ∧
    ∃ since, Follows s.port s.phase since ∧ since <+: (line s.service.keyer).calls)
    ⟨safe_start a initialWpm, fun hret => (by cases hret), [], follows_start a initialWpm key,
      List.nil_prefix⟩ ?_
  · obtain ⟨hsafe, hout, since, hfollows, hprefix⟩ := hinv
    have hphase := hout hkeyer
    rw [hphase] at hfollows
    rw [← Bool.not_eq_true]
    intro hdtr
    obtain ⟨source, hhead⟩ :=
      (hfollows.line (hfollows.attached hdtr) (by decide) (by decide)).mp hdtr
    refine hsafe.keyerOut hkeyer ((hsafe.settled hclient).down source ?_)
    obtain ⟨earlier, hcalls⟩ := hprefix
    rw [← hcalls, List.head?_append, hhead]
    rfl
  · rintro s act s' ⟨hsafe, hout, since, hfollows, hprefix⟩ hok hs
    exact ⟨station_safe_step hsafe hok hs, out_step hout hs, _, follows_step hfollows hs, since_step hprefix hs⟩

def pulledInTune : List Action :=
  tunedOnPort.take 9 ++ [.unplug, .plug] ++ tunedOnPort.drop 9 ++
    [.service .stop, .service (.keyer fun _ => .at 0)]

theorem line_down_after_pull : ∃ s : Station ℚ, s.port.device = some 1 ∧ s.port.dtr = false := by
  obtain ⟨s, hrun, hview⟩ := run_of_exec_map (step .signed) Released (start (.at 0) 24 false : Station ℚ)
    pulledInTune
    (fun s => (s.service.client, s.service.keyerThread, s.port.device)) (.returned, .returned, some 1)
    (by decide +kernel)
  simp only [Prod.mk.injEq] at hview
  exact ⟨s, hview.2.2, line_down_at_the_end .signed (.at 0) 24 false pulledInTune s hrun hview.1 hview.2.1⟩

end

end Cwsd.KeyInterface

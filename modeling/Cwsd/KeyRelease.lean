import Cwsd.CwdaemonServer
import Cwsd.KeyLine
import Cwsd.Runs

namespace Cwsd.KeyRelease

open KeyerState KeyerMachine KeyerPass CwDaemon UdpServer CwdaemonServer WinkeyerFeed KeyLine Runs

/-- The last key call, if any, is a key up unless an element is being sent, and
every immediate key down has a later key up. -/
structure Settled (l : Line) : Prop where
  down : ∀ source, l.calls.head? = some (.keyDown source) → l.state = some .sendElement
  released : ∀ later earlier, l.calls = later ++ .keyDown .immediate :: earlier →
    ∃ source, .keyUp source ∈ later

theorem settled_keyUp {l : Line} (source : KeySource) (calls : List Event)
    (h : l.calls = .keyUp source :: calls) : Settled l := by
  refine ⟨fun source hd => by simp [h] at hd, ?_⟩
  intro later earlier heq
  rw [h] at heq
  cases later with
  | nil => cases heq
  | cons e later =>
      cases heq
      exact ⟨source, List.mem_cons_self⟩

theorem Settled.released_cons {l : Line} (h : Settled l) {e : Event} (he : e ≠ .keyDown .immediate) :
    ∀ later earlier, e :: l.calls = later ++ .keyDown .immediate :: earlier →
      ∃ source, .keyUp source ∈ later := by
  intro later earlier heq
  cases later with
  | nil =>
      cases heq
      exact absurd rfl he
  | cons d later =>
      obtain ⟨-, htail⟩ := List.cons.inj heq
      obtain ⟨source, hmem⟩ := h.released later earlier htail
      exact ⟨source, List.mem_cons_of_mem _ hmem⟩

section

variable {F : Type} [SinglePrecision F]

theorem settled_pass (a : Answers) {k : Keyer F} (h : Settled (line k)) : Settled (line (updatePass a k)) := by
  rcases line_pass a k with heq | ⟨st, next, hst, hne, heq⟩
  · exact heq ▸ h
  rw [heq]
  by_cases hs : st = .sendElement
  · refine settled_keyUp .element (line k).calls ?_
    simp [transitionCalls, hs, hs ▸ hne]
  by_cases hn : next = .sendElement
  · have hcalls : transitionCalls st next ++ (line k).calls = .keyDown .element :: (line k).calls := by
      simp [transitionCalls, hs, hn]
    rw [hcalls]
    exact ⟨fun _ _ => congrArg some hn, h.released_cons (by decide)⟩
  · have hcalls : transitionCalls st next ++ (line k).calls = (line k).calls := by
      simp [transitionCalls, hs, hn]
    rw [hcalls]
    refine ⟨fun source hd => ?_, h.released⟩
    have hold : k.currentState = some .sendElement := h.down source hd
    rw [hst] at hold
    exact absurd (Option.some.inj hold) hs

theorem parser_pass (a : Answers) (k : Keyer F) : (line (updatePass a k)).parser = (line k).parser := by
  rcases line_pass a k with heq | ⟨st, next, hst, hne, heq⟩
  · rw [heq]
  · rw [heq]

theorem parser_update (hardware : Fin maxTransitionsPerTick → Answers) (k : Keyer F) :
    (line (update hardware k)).parser = (line k).parser :=
  update_invariant (fun k' => (line k').parser = (line k).parser) hardware
    (fun i k' hk => (parser_pass (hardware i) k').trans hk) rfl

inductive Action
  | client (input : Input)
  | keyer (hardware : Fin maxTransitionsPerTick → Readings)
  | stop

/-- An exception that leaves client_worker ends the process, so nothing follows it. -/
def step (char : CharType) (s : Service F) : Action → Option (Service F)
  | .client input => (clientStep char input s).toOption
  | .keyer hardware => some (keyerStep hardware s)
  | .stop => some { s with isRunning := false }

def ClientReturns (input : Input) (s : Service F) : Prop :=
  s.client = .loop ∧ s.isRunning = false ∨
    s.client = .receiving ∧ (receive input.arrived).any isExitCmd = true

instance (input : Input) (s : Service F) : Decidable (ClientReturns input s) :=
  inferInstanceAs (Decidable (_ ∧ _ ∨ _ ∧ _))

/-- No thread ends while it holds the key: client_worker does not return while it
is tuning, and keyer_worker does not leave its loop while an element is sent. -/
def KeyFree (s : Service F) : Action → Prop
  | .client input => ClientReturns input s → s.isTuning = false
  | .keyer _ => s.keyerThread = .loop → s.isRunning = false → s.keyer.currentState ≠ some .sendElement
  | .stop => True

instance (s : Service F) (act : Action) : Decidable (KeyFree s act) :=
  match act with
  | .client input => inferInstanceAs (Decidable (ClientReturns input s → s.isTuning = false))
  | .keyer _ => inferInstanceAs (Decidable (_ → _ → _ ≠ _))
  | .stop => inferInstanceAs (Decidable True)

def toFeed : ClientPc → List UInt8
  | .feeding bytes | .endTuning bytes => bytes
  | _ => []

/-- The calls satisfy q, or client_worker knows why they do not: it is tuning, or it is
about to send the key up. -/
def AccountedBy (q : Line → Prop) (s : Service F) : Prop :=
  match s.client with
  | .endTuning bytes =>
      q (line s.keyer) ∧ (line s.keyer).parser.keysAll bytes = [] ∨
        (line s.keyer).parser.keysAll bytes = [.keyUp .immediate]
  | .returned => q (line s.keyer)
  | pc => s.isTuning = true ∨ q (line s.keyer) ∧ (line s.keyer).parser.keysAll (toFeed pc) = []

structure Manned (q : Line → Prop) (s : Service F) : Prop where
  boundary : ((line s.keyer).parser.feedAll (toFeed s.client)).AtBoundary
  accounted : AccountedBy q s

/-- Neither thread goes while it holds the key. -/
structure Safe (s : Service F) : Prop extends Manned Settled s where
  keyerOut : s.keyerThread = .returned → s.keyer.currentState ≠ some .sendElement

omit [SinglePrecision F] in
theorem Safe.settled {s : Service F} (h : Safe s) (hpc : s.client = .returned) : Settled (line s.keyer) := by
  have hacc := h.accounted
  simpa only [AccountedBy, hpc] using hacc

theorem currentState_winkeyerData (c : UInt8) (k : Keyer F) :
    (winkeyerData c k).currentState = k.currentState :=
  congrArg Line.state (line_winkeyerData c k)

/-- What client_worker keeps of the calls, whatever q says of them, as long as it survives bytes
that do not key and holds after an immediate key up. -/
structure Answerable (q : Line → Prop) : Prop where
  fed : ∀ l p, q l → q { l with parser := p }
  keyUp : ∀ l calls, l.calls = .keyUp .immediate :: calls → q l

section

variable {q : Line → Prop} (hq : Answerable q)

include hq

theorem Answerable.silent {c : UInt8} {bytes : List UInt8} {k : Keyer F} (h : q (line k))
    (hkeys : (line k).parser.keysAll (c :: bytes) = []) :
    q (line (winkeyerData c k)) ∧ (line (winkeyerData c k)).parser.keysAll bytes = [] := by
  obtain ⟨hc, hrest⟩ := List.append_eq_nil_iff.mp hkeys
  rw [line_winkeyerData, hc]
  exact ⟨hq.fed (line k) _ h, hrest⟩

theorem Answerable.closing {c : UInt8} {bytes : List UInt8} {k : Keyer F}
    (hkeys : (line k).parser.keysAll (c :: bytes) = [.keyUp .immediate]) :
    q (line (winkeyerData c k)) ∧ (line (winkeyerData c k)).parser.keysAll bytes = [] ∨
      (line (winkeyerData c k)).parser.keysAll bytes = [.keyUp .immediate] := by
  rw [line_winkeyerData]
  rcases List.append_eq_singleton_iff.mp hkeys with ⟨hc, hrest⟩ | ⟨hc, hrest⟩
  · exact .inr hrest
  · refine .inl ⟨hq.keyUp _ (line k).calls ?_, hrest⟩
    simp [hc]

omit [SinglePrecision F] hq in
theorem manned_startFeeding {char : CharType} {message wkData : List UInt8} {speed : UInt8} {clock : UInt32}
    {s : Service F} (h : Manned q s) (hpc : s.client = .receiving)
    (hw : toWinkeyer char message speed = .ok wkData) : Manned q (startFeeding wkData clock s) := by
  have hb : (line s.keyer).parser.AtBoundary := by
    have hb := h.boundary
    rwa [hpc] at hb
  have hacc := h.accounted
  simp only [AccountedBy, hpc] at hacc
  rcases toWinkeyer_frames hw with hbal | ⟨seconds, rfl⟩
  · rw [startFeeding, if_neg (by rw [hbal.not_tuning]; decide)]
    obtain ⟨hb', hk⟩ := hbal _ hb
    exact ⟨hb', hacc.imp_right fun hs => ⟨hs.1, hk⟩⟩
  · rw [startFeeding, if_pos (by simp [isTuningCommand])]
    exact ⟨(feedAll_key hb 1).1, .inl rfl⟩

omit [SinglePrecision F] hq in
theorem manned_endTuning {s : Service F} (h : Manned q s) (hfeed : toFeed s.client = []) :
    Manned q { s with client := .endTuning carrierOff } := by
  have hb := h.boundary
  rw [hfeed] at hb
  obtain ⟨hb', hk⟩ := feedAll_key hb 0
  exact ⟨hb', .inr (hk rfl)⟩

omit hq in
theorem manned_handleMessage {char : CharType} {message : List UInt8} {clock : UInt32} {s s' : Service F}
    (h : Manned q s) (hpc : s.client = .receiving) (hexit : isExitCmd message = true → s.isTuning = false)
    (hs : handleMessage char message clock s = .ok s') : Manned q s' := by
  have hacc := h.accounted
  simp only [AccountedBy, hpc] at hacc
  simp only [handleMessage] at hs
  split at hs
  · rename_i he
    cases hs
    have hb := h.boundary
    rw [hpc] at hb
    exact ⟨hb, (hacc.resolve_left (by simp [hexit he])).1⟩
  split at hs
  · cases hs
    exact manned_endTuning h (by rw [hpc]; rfl)
  · cases hw : toWinkeyer char message (SinglePrecision.toUInt8 (getSpeed s.keyer)) with
    | error e =>
        rw [hw] at hs
        cases hs
    | ok wkData =>
        rw [hw] at hs
        cases hs
        exact manned_startFeeding h hpc hw

theorem manned_client {char : CharType} {input : Input} {s s' : Service F} (h : Manned q s)
    (hok : ClientReturns input s → s.isTuning = false) (hs : clientStep char input s = .ok s') :
    Manned q s' := by
  have hb := h.boundary
  have hacc := h.accounted
  simp only [AccountedBy] at hacc
  cases hpc : s.client with
  | loop =>
      simp only [hpc] at hb hacc
      simp only [clientStep, hpc] at hs
      cases hs
      cases hrun : s.isRunning with
      | true => exact ⟨hb, hacc⟩
      | false => exact ⟨hb, (hacc.resolve_left (by simp [hok (.inl ⟨hpc, hrun⟩)])).1⟩
  | receiving =>
      cases hm : receive input.arrived with
      | none =>
          simp only [hpc] at hb hacc
          simp only [clientStep, hpc, hm] at hs
          cases hs
          exact ⟨hb, hacc⟩
      | some message =>
          rw [clientStep_receiving char hpc hm] at hs
          exact manned_handleMessage h hpc (fun he => hok (.inr ⟨hpc, by rw [hm]; exact he⟩)) hs
  | feeding bytes =>
      simp only [hpc] at hb hacc
      cases bytes with
      | nil =>
          simp only [clientStep, hpc] at hs
          cases hs
          exact ⟨hb, hacc⟩
      | cons c bytes =>
          simp only [clientStep, hpc] at hs
          cases hs
          refine ⟨?_, hacc.imp_right fun hs => hq.silent hs.1 hs.2⟩
          rw [line_winkeyerData]
          exact hb
  | polling =>
      have hpoll := manned_endTuning h (by rw [hpc]; rfl)
      simp only [hpc] at hb hacc
      simp only [clientStep, hpc] at hs
      cases hs
      split
      · exact hpoll
      · exact ⟨hb, hacc⟩
  | endTuning bytes =>
      simp only [hpc] at hb hacc
      cases bytes with
      | nil =>
          simp only [clientStep, hpc] at hs
          cases hs
          exact ⟨hb, .inr ⟨(hacc.resolve_right (by simp [FrameParser.keysAll])).1, rfl⟩⟩
      | cons c bytes =>
          simp only [clientStep, hpc] at hs
          cases hs
          refine ⟨?_, hacc.elim (fun hs => .inl (hq.silent hs.1 hs.2)) hq.closing⟩
          rw [line_winkeyerData]
          exact hb
  | returned =>
      simp only [clientStep, hpc] at hs
      cases hs
      exact h

omit hq in
theorem manned_update (hpass : ∀ a k, q (line k) → q (line (updatePass a k : Keyer F)))
    (hardware : Fin maxTransitionsPerTick → Answers) {s : Service F} (h : Manned q s) :
    Manned q { s with keyer := update hardware s.keyer } := by
  have hp := parser_update hardware s.keyer
  have hset := update_invariant (fun k => q (line k)) hardware (fun i k => hpass (hardware i) k) (k := s.keyer)
  refine ⟨by rw [hp]; exact h.boundary, ?_⟩
  have hacc := h.accounted
  simp only [AccountedBy, hp] at hacc ⊢
  split at hacc
  · exact hacc.imp_left fun hs => ⟨hset hs.1, hs.2⟩
  · exact hset hacc
  · exact hacc.imp_right fun hs => ⟨hset hs.1, hs.2⟩

end

theorem handleMessage_keyer {char : CharType} {message : List UInt8} {clock : UInt32} {s s' : Service F}
    (hs : handleMessage char message clock s = .ok s') :
    s'.keyer = s.keyer ∧ s'.keyerThread = s.keyerThread := by
  simp only [handleMessage] at hs
  split at hs
  · cases hs
    exact ⟨rfl, rfl⟩
  split at hs
  · cases hs
    exact ⟨rfl, rfl⟩
  · cases hw : toWinkeyer char message (SinglePrecision.toUInt8 (getSpeed s.keyer)) with
    | error e =>
        rw [hw] at hs
        cases hs
    | ok wkData =>
        rw [hw] at hs
        cases hs
        simp only [startFeeding]
        split <;> exact ⟨rfl, rfl⟩

/-- No step of client_worker changes the state of the keyer or where its thread stands. -/
theorem clientStep_state {char : CharType} {input : Input} {s s' : Service F}
    (hs : clientStep char input s = .ok s') :
    s'.keyer.currentState = s.keyer.currentState ∧ s'.keyerThread = s.keyerThread := by
  simp only [clientStep] at hs
  split at hs
  · cases hs
    exact ⟨rfl, rfl⟩
  · split at hs
    · obtain ⟨hkeyer, hthread⟩ := handleMessage_keyer hs
      rw [hkeyer]
      exact ⟨rfl, hthread⟩
    · cases hs
      exact ⟨rfl, rfl⟩
  · cases hs
    exact ⟨rfl, rfl⟩
  · cases hs
    exact ⟨currentState_winkeyerData _ _, rfl⟩
  · cases hs
    exact ⟨rfl, rfl⟩
  · cases hs
    exact ⟨rfl, rfl⟩
  · cases hs
    exact ⟨currentState_winkeyerData _ _, rfl⟩
  · cases hs
    exact ⟨rfl, rfl⟩

theorem line_init (a : Readings) : line (init (keyInterface a) (Keyer.zero : Keyer F)) =
    ⟨some .idle, ⟨0, 0, 0, List.replicate 15 0, 0⟩, []⟩ := rfl

theorem manned_start {q : Line → Prop} (hq : Answerable q) (a : Readings) (initialWpm : UInt8)
    (hinit : q (line (init (keyInterface a) (Keyer.zero : Keyer F)))) :
    Manned q (start a initialWpm : Service F) := by
  have hbytes : Balanced [0x02, initialWpm] := balanced_immediate (by decide) (by decide) (by decide) _
  obtain ⟨hb, hk⟩ := hbytes ⟨0, 0, 0, List.replicate 15 0, 0⟩ ⟨rfl, rfl⟩
  obtain ⟨h₁, hk₁⟩ := hq.silent hinit (by rw [line_init]; exact hk)
  obtain ⟨h₂, hk₂⟩ := hq.silent h₁ hk₁
  refine ⟨?_, .inr ⟨h₂, hk₂⟩⟩
  simp only [start, line_winkeyerData, line_init]
  exact hb

theorem answerable_settled : Answerable Settled :=
  ⟨fun _ _ h => ⟨h.down, h.released⟩, fun _ calls h => settled_keyUp .immediate calls h⟩

theorem safe_start (a : Readings) (initialWpm : UInt8) : Safe (start a initialWpm : Service F) := by
  have hinit : Settled (line (init (keyInterface a) (Keyer.zero : Keyer F))) := by
    rw [line_init]
    exact ⟨by simp, by simp⟩
  exact ⟨manned_start answerable_settled a initialWpm hinit, by simp [start]⟩

theorem safe_keyer (hardware : Fin maxTransitionsPerTick → Readings) {s : Service F} (h : Safe s)
    (hok : KeyFree s (.keyer hardware)) : Safe (keyerStep hardware s) := by
  simp only [keyerStep]
  split
  · rename_i hpc
    refine ⟨⟨h.boundary, h.accounted⟩, fun hret => hok hpc ?_⟩
    by_contra hrun
    simp [hrun] at hret
  · have hmanned := manned_update (fun a _ hk => settled_pass a hk) (fun i => keyInterface (hardware i)) h.toManned
    exact ⟨⟨hmanned.boundary, hmanned.accounted⟩, by simp⟩
  · exact h

theorem safe_client {char : CharType} {input : Input} {s s' : Service F} (h : Safe s)
    (hok : KeyFree s (.client input)) (hs : clientStep char input s = .ok s') : Safe s' := by
  obtain ⟨hstate, hthread⟩ := clientStep_state hs
  refine ⟨manned_client answerable_settled h.toManned hok hs, ?_⟩
  rw [hstate, hthread]
  exact h.keyerOut

theorem keyerStep_frame (hardware : Fin maxTransitionsPerTick → Readings) (s : Service F) :
    (keyerStep hardware s).isTuning = s.isTuning ∧ (keyerStep hardware s).tuneEndTime = s.tuneEndTime ∧
      (keyerStep hardware s).client = s.client := by
  simp only [keyerStep]
  split <;> exact ⟨rfl, rfl, rfl⟩

theorem step_client {char : CharType} {input : Input} {s s' : Service F}
    (hs : step char s (.client input) = some s') : clientStep char input s = .ok s' := by
  simp only [step] at hs
  cases hc : clientStep char input s with
  | error e =>
      rw [hc] at hs
      cases hs
  | ok t =>
      rw [hc] at hs
      cases hs
      rfl

theorem safe_step {char : CharType} {s s' : Service F} {act : Action} (h : Safe s) (hok : KeyFree s act)
    (hs : step char s act = some s') : Safe s' := by
  cases act with
  | client input => exact safe_client h hok (step_client hs)
  | keyer hardware =>
      cases hs
      exact safe_keyer hardware h hok
  | stop =>
      cases hs
      exact ⟨⟨h.boundary, h.accounted⟩, h.keyerOut⟩

def lastKeyCall (trace : List Event) : Option Event := trace.find? isKeyCall

/-- As long as no thread ends while it holds the key, the service leaves the
transmitter unkeyed: once client_worker has returned, every immediate key down
has been followed by a key up, and once both threads have returned the last key
call is a key up or there was none. -/
theorem unkeyed_at_the_end (char : CharType) (a : Readings) (initialWpm : UInt8) (acts : List Action)
    (s : Service F) (h : Run (step char) KeyFree (start a initialWpm) acts s) :
    (s.client = .returned → ∀ later earlier, s.keyer.trace = later ++ .keyDown .immediate :: earlier →
      ∃ source, .keyUp source ∈ later) ∧
    (s.client = .returned → s.keyerThread = .returned →
      ∀ source, lastKeyCall s.keyer.trace ≠ some (.keyDown source)) := by
  have hsafe := h.invariant Safe (safe_start a initialWpm) fun _ _ _ hk hok hs => safe_step hk hok hs
  constructor
  · intro hpc later earlier heq
    obtain ⟨source, hmem⟩ := (hsafe.settled hpc).released (later.filter isKeyCall) (earlier.filter isKeyCall)
      (by simp [line, heq, isKeyCall, List.filter_cons])
    exact ⟨source, (List.mem_filter.mp hmem).1⟩
  · intro hpc hk source hlast
    refine hsafe.keyerOut hk ((hsafe.settled hpc).down source ?_)
    simpa [line, lastKeyCall, List.head?_filter] using hlast

def datagram (payload : List UInt8) (clock : UInt32) : Action := .client ⟨some payload, clock⟩
def quiet (clock : UInt32) : Action := .client ⟨none, clock⟩

/-- A tune of one second that runs out, then the exit command. -/
def tuneThenExit : List Action :=
  [quiet 0, datagram [27, 0x63, 0x31] 0, quiet 0, quiet 0, quiet 0, quiet 1001, quiet 1001, quiet 1001,
    quiet 1001, quiet 1001, datagram [27, 0x35] 1001]

theorem unkeyed_after_tuneThenExit :
    ∃ s, Run (step .signed) KeyFree (start (.at 0) 24 : Service ℚ) tuneThenExit s ∧
      s.client = .returned ∧
      ∀ later earlier, s.keyer.trace = later ++ .keyDown .immediate :: earlier →
        ∃ source, .keyUp source ∈ later := by
  obtain ⟨s, hrun, hpc⟩ := run_of_exec_map (step .signed) KeyFree (start (.at 0) 24 : Service ℚ)
    tuneThenExit Service.client .returned (by decide +kernel)
  exact ⟨s, hrun, hpc, (unkeyed_at_the_end .signed (.at 0) 24 tuneThenExit s hrun).1 hpc⟩

/-- The exit command in the middle of a tune of ten seconds. -/
def exitWhileTuning : List Action :=
  [quiet 0, datagram [27, 0x63, 0x31, 0x30] 0, quiet 0, quiet 0, quiet 0, quiet 0, quiet 0,
    datagram [27, 0x35] 0, .stop, .keyer fun _ => .at 0]

theorem keyed_after_exitWhileTuning :
    ∃ s, Run (step .signed) (fun _ _ => True) (start (.at 0) 24 : Service ℚ) exitWhileTuning s ∧
      s.client = .returned ∧ s.keyerThread = .returned ∧
      lastKeyCall s.keyer.trace = some (.keyDown .immediate) ∧
      ∀ source, .keyUp source ∉ s.keyer.trace := by
  obtain ⟨s, hrun, hview⟩ := run_of_exec_map (step .signed) (fun _ _ => True)
    (start (.at 0) 24 : Service ℚ) exitWhileTuning (fun s => (s.client, s.keyerThread, s.keyer.trace))
    (.returned, .returned, [.keyDown .immediate, .parametersChanged, .entered .idle .none])
    (by decide +kernel)
  simp only [Prod.mk.injEq] at hview
  obtain ⟨hpc, hk, htrace⟩ := hview
  exact ⟨s, hrun, hpc, hk, by rw [htrace]; rfl, by simp [htrace]⟩

end

end Cwsd.KeyRelease

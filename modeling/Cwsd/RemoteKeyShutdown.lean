import Cwsd.RemoteKeyPort
import Cwsd.RemoteKeyThreads

namespace Cwsd.RemoteKeyShutdown

open RemoteKeyProtocol RemoteKeyServer RemoteKeyThreads Runs

/-- Where receive_worker is in its loop. -/
inductive RxLoop
  | testing
  | working
  | returned
  deriving DecidableEq, Repr

/-- Where replay_worker is: its loop, and the two calls of the force_safe behind it. -/
inductive ReplayLoop
  | testing
  | passing
  | keyUp
  | pttOff
  | returned
  deriving DecidableEq, Repr

/-- Where the owner is in stop. -/
inductive Owner
  | serving
  | joining
  | stopped
  deriving DecidableEq, Repr

/-- The server with the loops of its threads, their flag and its socket. -/
structure Life where
  threads : Threads
  isRunning : Bool
  rx : RxLoop
  replay : ReplayLoop
  owner : Owner
  listening : Bool
  deriving DecidableEq, Repr

def launch (present : Bool) : Life := ⟨startThreads present, true, .testing, .testing, .serving, true⟩

/-- A turn of receive_worker; nothing arrives when recvfrom times out or the datagram is malformed. -/
def rxTurn (cfg : Config) (arrived : Option (Packet × UInt64)) (l : Life) : Option Life :=
  match l.rx with
  | .testing => some { l with rx := if l.isRunning then .working else .returned }
  | .working =>
      if l.threads.rx = .waiting then
        match arrived with
        | none => some { l with rx := .testing }
        | some (pkt, t) => (threadStep cfg l.threads (.arrive pkt t)).map fun st => { l with threads := st }
      else
        (receiveStep cfg l.threads).map fun st =>
          { l with threads := st, rx := if st.rx = .waiting then .testing else .working }
  | .returned => none

def releaseKey (st : Threads) : Threads := { st with server := setKey st.server.clockUs false st.server }

def releasePtt (st : Threads) : Threads :=
  { st with server := emit (.forceSafe st.server.clockUs) (setPtt st.server.clockUs false st.server) }

def replayTurn (cfg : Config) (now : UInt64) (l : Life) : Option Life :=
  match l.replay with
  | .testing => some { l with replay := if l.isRunning then .passing else .keyUp }
  | .passing =>
      if l.threads.replay = .top then
        (threadStep cfg l.threads (.tick now)).map fun st => { l with threads := st }
      else
        (replayStep cfg l.threads).map fun st =>
          { l with threads := st, replay := if st.replay = .top then .testing else .passing }
  | .keyUp => some { l with threads := releaseKey l.threads, replay := .pttOff }
  | .pttOff => some { l with threads := releasePtt l.threads, replay := .returned }
  | .returned => none

def closePort (p : Port) : Port := { p with fd := none }

inductive Action
  | rx (arrived : Option (Packet × UInt64))
  | replay (now : UInt64)
  | plug
  | unplug
  | stop
  | join
  deriving DecidableEq, Repr

def withPort (f : Port → Port) (l : Life) : Life :=
  { l with threads := { l.threads with server := { l.threads.server with port := f l.threads.server.port } } }

/-- One step of a thread, of the device or of the owner, none where it has to wait. -/
def lifeStep (cfg : Config) (l : Life) : Action → Option Life
  | .rx arrived => rxTurn cfg arrived l
  | .replay now => replayTurn cfg now l
  | .plug => some (withPort Port.plug l)
  | .unplug => some (withPort Port.unplug l)
  | .stop => if l.owner = .serving then some { l with isRunning := false, owner := .joining } else none
  | .join =>
      if l.owner = .joining ∧ l.rx = .returned ∧ l.replay = .returned then
        some { withPort closePort l with owner := .stopped, listening := false }
      else none

def lastKey : List Event → Option Bool
  | [] => none
  | .setKey _ down :: _ => some down
  | _ :: log => lastKey log

def lastPtt : List Event → Option Bool
  | [] => none
  | .setPtt _ on :: _ => some on
  | _ :: log => lastPtt log

structure Lines where
  port : Port
  key : Option Bool
  ptt : Option Bool

def lines (s : Server) : Lines := ⟨s.port, lastKey s.log, lastPtt s.log⟩

/-- A line is asserted only over a descriptor that the device still answers to. -/
def Covered (p : Port) : Prop := p.dtr = true ∨ p.rts = true → p.live = true

theorem lines_enqueue (cfg : Config) (t : UInt64) (pkt : Packet) (s : Server) :
    lines (enqueue cfg t pkt s) = lines s := by
  have hpush (e : Edge) (s : Server) : lines (pushEdge cfg t s e) = lines s := by
    simp only [pushEdge, anchor]
    split
    · rfl
    · split <;> rfl
  have hfold (edges : List Edge) (s : Server) : lines (edges.foldl (pushEdge cfg t) s) = lines s := by
    induction edges generalizing s with
    | nil => rfl
    | cons e edges ih => rw [List.foldl_cons, ih, hpush]
  rw [enqueue, hfold, openSession]
  split <;> rfl

theorem setKey_stale {p : Port} (h : p.live = false) (down : Bool) : p.setKey down = p := by
  rw [Port.setKey, Port.setDtr, h]
  split <;> rfl

theorem setPtt_stale {p : Port} (h : p.live = false) (on : Bool) : p.setPtt on = p := by
  rw [Port.setPtt, Port.setRts, h]
  split <;> rfl

theorem setPtt_dtr (p : Port) (on : Bool) : (p.setPtt on).dtr = p.dtr := by
  cases hlive : p.live with
  | false => rw [setPtt_stale hlive]
  | true => rw [RemoteKeyPort.setPtt_live hlive]

namespace Covered

variable {p : Port} {now : UInt64} {s : Server}

theorem released (hdtr : p.dtr = false) (hrts : p.rts = false) : Covered p := by
  rintro (h | h)
  · exact absurd (hdtr.symm.trans h) Bool.false_ne_true
  · exact absurd (hrts.symm.trans h) Bool.false_ne_true

theorem dark (h : Covered p) (hlive : p.live = false) : p.dtr = false ∧ p.rts = false := by
  constructor
  · exact Bool.eq_false_iff.mpr fun hdtr => absurd (h (.inl hdtr)) (by simp [hlive])
  · exact Bool.eq_false_iff.mpr fun hrts => absurd (h (.inr hrts)) (by simp [hlive])

theorem openPort (h : Covered p) : Covered p.openPort := by
  rw [Port.openPort]
  split
  · exact released rfl rfl
  · rename_i habsent
    have hdark := h.dark (by simp [Port.live, habsent])
    exact released hdark.1 hdark.2

theorem setKey (h : Covered p) (down : Bool) : Covered (p.setKey down) := by
  cases hlive : p.live with
  | false =>
      rw [setKey_stale hlive]
      exact h
  | true =>
      have hset : (p.setKey down).live = true := (RemoteKeyPort.setKey_fd p down).2.trans hlive
      exact fun _ => hset

theorem setPtt (h : Covered p) (on : Bool) : Covered (p.setPtt on) := by
  cases hlive : p.live with
  | false =>
      rw [setPtt_stale hlive]
      exact h
  | true =>
      have hset : (p.setPtt on).live = true := (RemoteKeyPort.setPtt_fd p on).2.trans hlive
      exact fun _ => hset

theorem released_setKey (h : Covered p) : (p.setKey false).dtr = false := by
  cases hlive : p.live with
  | false =>
      rw [setKey_stale hlive]
      exact (h.dark hlive).1
  | true => rw [RemoteKeyPort.setKey_live hlive]

theorem released_setPtt (h : Covered p) : (p.setPtt false).rts = false := by
  cases hlive : p.live with
  | false =>
      rw [setPtt_stale hlive]
      exact (h.dark hlive).2
  | true => rw [RemoteKeyPort.setPtt_live hlive]

theorem safeState (h : Covered s.port) : Covered (safeState now s).port := (h.setKey false).setPtt false

theorem checkReset (h : Covered s.port) : Covered (checkReset now s).port := by
  rw [RemoteKeyServer.checkReset]
  split
  · exact safeState (s := { s with resetRequested := false }) h
  · exact h

theorem reconnect (h : Covered s.port) : Covered (reconnect now s).port := by
  rw [RemoteKeyServer.reconnect]
  split
  · exact h.openPort
  · exact h

theorem silenceSafe (h : Covered s.port) : Covered (silenceSafe now s).port := by
  rw [RemoteKeyServer.silenceSafe]
  split
  · exact safeState h
  · exact h

theorem checkWatchdog {cfg : Config} (h : Covered s.port) : Covered (checkWatchdog cfg now s).port := by
  rw [RemoteKeyServer.checkWatchdog]
  split
  · exact h.setKey false
  · exact h

theorem applyEdge {cfg : Config} {se : ScheduledEdge} (h : Covered s.port) :
    Covered (applyEdge cfg now se s).port := by
  have hptt : Covered (pttForEdge now se.isDown (emit (.popped now se) s)).port := by
    rw [pttForEdge]
    split
    · exact h.setPtt true
    · exact h
  rw [RemoteKeyServer.applyEdge, keyForEdge]
  split
  · exact hptt
  split
  · exact hptt.setKey se.isDown
  · exact hptt.setKey se.isDown

theorem applyDue {cfg : Config} (due : List ScheduledEdge) (h : Covered s.port) :
    Covered (applyDue cfg now due s).port := by
  induction due generalizing s with
  | nil => exact h
  | cons se due ih =>
      rw [RemoteKeyServer.applyDue]
      split
      · exact ih h.applyEdge
      · exact h

theorem sequencePtt {cfg : Config} {next : Option ScheduledEdge} (h : Covered s.port) :
    Covered (sequencePtt cfg now next s).port := by
  have hlead : Covered (pttLead cfg now next s).port := by
    cases next with
    | none => exact h
    | some e =>
        simp only [pttLead]
        split
        · exact h.setPtt true
        · exact h
  rw [RemoteKeyServer.sequencePtt, pttTail]
  split
  · exact hlead.setPtt false
  · exact hlead

theorem replayStep {cfg : Config} {st st' : Threads} (h : Covered st.server.port)
    (hs : replayStep cfg st = some st') : Covered st'.server.port := by
  rw [RemoteKeyThreads.replayStep] at hs
  cases hpc : st.replay with
  | top =>
      rw [hpc] at hs
      cases hs
  | entered now =>
      rw [hpc] at hs
      cases hs
      exact h.reconnect.checkReset
  | checked now | loaded now sinceRx | dropping now =>
      rw [hpc] at hs
      cases hs
      exact h
  | silent now =>
      rw [hpc] at hs
      cases hs
      exact h.silenceSafe
  | guarding now =>
      rw [hpc] at hs
      cases hs
      exact h.checkWatchdog
  | draining now =>
      rw [hpc] at hs
      cases hs
      exact h.applyDue st.server.queue
  | sequencing now next =>
      rw [hpc] at hs
      cases hs
      exact h.sequencePtt

end Covered

def rxLeft (l : Life) : Nat :=
  match l.rx, l.threads.rx with
  | .working, .clocked _ _ => 3
  | .working, .stored _ _ => 2
  | .working, .waiting => 4
  | .testing, _ => 1
  | .returned, _ => 0

theorem rxTurn_cases {cfg : Config} {arrived : Option (Packet × UInt64)} {l l' : Life}
    (hs : rxTurn cfg arrived l = some l') :
    l.rx ≠ .returned ∧ ∃ st rx, l' = { l with threads := st, rx := rx } ∧
      lines st.server = lines l.threads.server ∧ st.replay = l.threads.replay ∧
      (l.isRunning = false → rxLeft l' < rxLeft l) := by
  cases hpc : l.rx with
  | returned =>
      simp only [rxTurn, hpc] at hs
      cases hs
  | testing =>
      simp only [rxTurn, hpc] at hs
      cases hs
      refine ⟨by simp, l.threads, _, rfl, rfl, rfl, fun hrun => ?_⟩
      simp [rxLeft, hpc, hrun]
  | working =>
      refine ⟨by simp, ?_⟩
      simp only [rxTurn, hpc] at hs
      cases hrx : l.threads.rx with
      | waiting =>
          rw [if_pos hrx] at hs
          cases arrived with
          | none =>
              cases hs
              exact ⟨l.threads, _, rfl, rfl, rfl, fun _ => by simp [rxLeft, hpc, hrx]⟩
          | some arrival =>
              obtain ⟨pkt, t⟩ := arrival
              simp only [threadStep, if_pos hrx] at hs
              cases hs
              exact ⟨_, .working, rfl, rfl, rfl, fun _ => by simp [rxLeft, hpc, hrx]⟩
      | clocked pkt t =>
          rw [if_neg (by simp [hrx])] at hs
          simp only [receiveStep, hrx] at hs
          cases hs
          exact ⟨_, _, rfl, rfl, rfl, fun _ => by simp [rxLeft, hpc, hrx]⟩
      | stored pkt t =>
          rw [if_neg (by simp [hrx])] at hs
          simp only [receiveStep, hrx] at hs
          cases hs
          exact ⟨_, _, rfl, lines_enqueue cfg t pkt l.threads.server, rfl, fun _ => by simp [rxLeft, hpc, hrx]⟩

def passLeft : ReplayPc → Nat
  | .top => 0
  | .entered _ => 8
  | .checked _ => 7
  | .loaded _ _ => 6
  | .silent _ => 5
  | .dropping _ => 4
  | .guarding _ => 3
  | .draining _ => 2
  | .sequencing _ _ => 1

def replayLeft (l : Life) : Nat :=
  match l.replay with
  | .passing => if l.threads.replay = .top then 12 else passLeft l.threads.replay + 3
  | .testing => 3
  | .keyUp => 2
  | .pttOff => 1
  | .returned => 0

theorem passLeft_replayStep {cfg : Config} {st st' : Threads} (hs : replayStep cfg st = some st') :
    passLeft st'.replay < passLeft st.replay ∧ (st'.replay = .top → passLeft st.replay = 1) := by
  cases hpc : st.replay with
  | top =>
      simp only [replayStep, hpc] at hs
      cases hs
  | loaded now sinceRx =>
      simp only [replayStep, hpc] at hs
      cases hs
      dsimp only
      split <;> simp [passLeft]
  | entered now | checked now | silent now | dropping now | guarding now | draining now | sequencing now next =>
      simp only [replayStep, hpc] at hs
      cases hs
      simp [passLeft]

/-- What the force_safe behind the loop has done so far. -/
structure Ended (l : Life) : Prop where
  covered : Covered l.threads.server.port
  key : l.replay = .pttOff ∨ l.replay = .returned →
    l.threads.server.port.dtr = false ∧ lastKey l.threads.server.log = some false
  ptt : l.replay = .returned → l.threads.server.port.rts = false ∧ lastPtt l.threads.server.log = some false
  stopped : l.owner = .stopped → l.rx = .returned ∧ l.replay = .returned ∧ l.threads.server.port.fd = none ∧
    l.listening = false

theorem ended_launch (present : Bool) : Ended (launch present) := by
  refine ⟨Covered.openPort (Covered.released rfl rfl), ?_, ?_, ?_⟩
  all_goals simp [launch]

namespace Ended

variable {cfg : Config} {l l' : Life}

theorem rxTurn {arrived : Option (Packet × UInt64)} (h : Ended l) (hs : rxTurn cfg arrived l = some l') :
    Ended l' := by
  obtain ⟨hrx, st, rx, rfl, hlines, -, -⟩ := rxTurn_cases hs
  have hport : st.server.port = l.threads.server.port := congrArg Lines.port hlines
  have hkey : lastKey st.server.log = lastKey l.threads.server.log := congrArg Lines.key hlines
  have hptt : lastPtt st.server.log = lastPtt l.threads.server.log := congrArg Lines.ptt hlines
  refine ⟨?_, ?_, ?_, fun hstopped => absurd (h.stopped hstopped).1 hrx⟩
  · rw [hport]
    exact h.covered
  · rw [hport, hkey]
    exact h.key
  · rw [hport, hptt]
    exact h.ptt

theorem replayTurn {now : UInt64} (h : Ended l) (hs : replayTurn cfg now l = some l') : Ended l' := by
  have howner (hreplay : l.replay ≠ .returned) : l.owner ≠ .stopped :=
    fun hstopped => hreplay (h.stopped hstopped).2.1
  cases hpc : l.replay with
  | returned =>
      simp only [RemoteKeyShutdown.replayTurn, hpc] at hs
      cases hs
  | testing =>
      simp only [RemoteKeyShutdown.replayTurn, hpc] at hs
      cases hs
      have hrunning := howner (by simp [hpc])
      refine ⟨h.covered, ?_, ?_, fun hstopped => absurd hstopped hrunning⟩
      · dsimp only
        split <;> simp
      · dsimp only
        split <;> simp
  | passing =>
      have hrunning := howner (by simp [hpc])
      simp only [RemoteKeyShutdown.replayTurn, hpc] at hs
      split at hs
      · rename_i htop
        simp only [threadStep, if_pos htop] at hs
        cases hs
        exact ⟨h.covered, by simp, by simp, fun hstopped => absurd hstopped hrunning⟩
      · obtain ⟨st, hst, heq⟩ := Option.map_eq_some_iff.mp hs
        subst heq
        refine ⟨h.covered.replayStep hst, ?_, ?_, fun hstopped => absurd hstopped hrunning⟩
        · dsimp only
          split <;> simp
        · dsimp only
          split <;> simp
  | keyUp =>
      have hrunning := howner (by simp [hpc])
      simp only [RemoteKeyShutdown.replayTurn, hpc] at hs
      cases hs
      refine ⟨h.covered.setKey false, fun _ => ⟨?_, rfl⟩, by simp, fun hstopped => absurd hstopped hrunning⟩
      exact h.covered.released_setKey
  | pttOff =>
      have hrunning := howner (by simp [hpc])
      obtain ⟨hdtr, hkey⟩ := h.key (.inl hpc)
      simp only [RemoteKeyShutdown.replayTurn, hpc] at hs
      cases hs
      refine ⟨h.covered.setPtt false, fun _ => ⟨?_, hkey⟩, fun _ => ⟨h.covered.released_setPtt, rfl⟩,
        fun hstopped => absurd hstopped hrunning⟩
      exact (setPtt_dtr l.threads.server.port false).trans hdtr

theorem lifeStep {act : Action} (h : Ended l) (hs : lifeStep cfg l act = some l') : Ended l' := by
  cases act with
  | rx arrived => exact h.rxTurn hs
  | replay now => exact h.replayTurn hs
  | plug =>
      cases hs
      have hplugged (p : Port) : p.plug.fd = p.fd := by
        rw [Port.plug]
        split <;> rfl
      have hplug : l.threads.server.port.plug = l.threads.server.port ∨
          l.threads.server.port.plug.dtr = false ∧ l.threads.server.port.plug.rts = false := by
        rw [Port.plug]
        split
        · exact .inl rfl
        · exact .inr ⟨rfl, rfl⟩
      rcases hplug with hsame | ⟨hdtr, hrts⟩
      · rw [withPort, hsame]
        exact h
      · refine ⟨Covered.released hdtr hrts, fun hreplay => ⟨hdtr, (h.key hreplay).2⟩,
          fun hreplay => ⟨hrts, (h.ptt hreplay).2⟩, fun hstopped => ?_⟩
        obtain ⟨hrx, hreplay, hfd, hlistening⟩ := h.stopped hstopped
        exact ⟨hrx, hreplay, (hplugged _).trans hfd, hlistening⟩
  | unplug =>
      cases hs
      exact ⟨Covered.released rfl rfl, fun hreplay => ⟨rfl, (h.key hreplay).2⟩,
        fun hreplay => ⟨rfl, (h.ptt hreplay).2⟩,
        h.stopped⟩
  | stop =>
      obtain ⟨howner, heq⟩ := Option.ite_none_right_eq_some.mp hs
      cases heq
      exact ⟨h.covered, h.key, h.ptt, by simp⟩
  | join =>
      obtain ⟨⟨howner, hrx, hreplay⟩, heq⟩ := Option.ite_none_right_eq_some.mp hs
      cases heq
      obtain ⟨hdtr, hkey⟩ := h.key (.inr hreplay)
      obtain ⟨hrts, hptt⟩ := h.ptt hreplay
      exact ⟨Covered.released hdtr hrts, fun _ => ⟨hdtr, hkey⟩, fun _ => ⟨hrts, hptt⟩,
        fun _ => ⟨hrx, hreplay, rfl, rfl⟩⟩

end Ended

def isRx : Action → Bool
  | .rx _ => true
  | _ => false

def isReplay : Action → Bool
  | .replay _ => true
  | _ => false

theorem rx_replayStep {cfg : Config} {st st' : Threads} (hs : replayStep cfg st = some st') :
    st'.rx = st.rx := by
  cases hpc : st.replay with
  | top =>
      simp only [replayStep, hpc] at hs
      cases hs
  | entered now | checked now | loaded now sinceRx | silent now | dropping now | guarding now | draining now
  | sequencing now next =>
      simp only [replayStep, hpc] at hs
      cases hs
      rfl

theorem replayTurn_stopped {cfg : Config} {now : UInt64} {l l' : Life} (hrun : l.isRunning = false)
    (hs : replayTurn cfg now l = some l') :
    l'.isRunning = false ∧ rxLeft l' = rxLeft l ∧ replayLeft l' < replayLeft l := by
  cases hpc : l.replay with
  | returned =>
      simp only [replayTurn, hpc] at hs
      cases hs
  | testing | keyUp | pttOff =>
      simp only [replayTurn, hpc] at hs
      cases hs
      exact ⟨hrun, rfl, by simp [replayLeft, hpc, hrun]⟩
  | passing =>
      simp only [replayTurn, hpc] at hs
      split at hs
      · rename_i htop
        simp only [threadStep, if_pos htop] at hs
        cases hs
        exact ⟨hrun, rfl, by simp [replayLeft, hpc, htop, passLeft]⟩
      · rename_i hnot
        obtain ⟨st, hst, rfl⟩ := Option.map_eq_some_iff.mp hs
        obtain ⟨hless, hlast⟩ := passLeft_replayStep hst
        refine ⟨hrun, ?_, ?_⟩
        · rw [rxLeft, rxLeft, rx_replayStep hst]
        · by_cases htop : st.replay = .top
          · have hone := hlast htop
            simp [replayLeft, hpc, hnot, htop, hone]
          · simp [replayLeft, hpc, hnot, htop, hless]

theorem turnsLeft_of_stopped {cfg : Config} {l l' : Life} {acts : List Action} (hrun : l.isRunning = false)
    (hacts : Run (lifeStep cfg) (fun _ _ => True) l acts l') :
    l'.isRunning = false ∧ rxLeft l' + acts.countP isRx ≤ rxLeft l ∧
      replayLeft l' + acts.countP isReplay ≤ replayLeft l := by
  induction hacts with
  | start => exact ⟨hrun, Nat.le_refl _, Nat.le_refl _⟩
  | @next acts l₁ act l₂ _ _ hs ih =>
      obtain ⟨hrun₁, hrx, hreplay⟩ := ih
      rw [List.countP_append, List.countP_append, List.countP_singleton, List.countP_singleton]
      cases act with
      | rx arrived =>
          obtain ⟨-, st, rx, rfl, -, hsame, hless⟩ := rxTurn_cases hs
          have hrxless := hless hrun₁
          have hreplays : replayLeft { l₁ with threads := st, rx := rx } = replayLeft l₁ := by
            rw [replayLeft, replayLeft, hsame]
          refine ⟨hrun₁, ?_, ?_⟩
          · rw [if_pos (show isRx (.rx arrived) = true from rfl)]
            omega
          · rw [hreplays, if_neg (show ¬ isReplay (.rx arrived) = true by simp [isReplay])]
            omega
      | replay now =>
          obtain ⟨hrun₂, hrxs, hless⟩ := replayTurn_stopped hrun₁ hs
          refine ⟨hrun₂, ?_, ?_⟩
          · rw [hrxs, if_neg (show ¬ isRx (.replay now) = true by simp [isRx])]
            omega
          · rw [if_pos (show isReplay (.replay now) = true from rfl)]
            omega
      | plug | unplug =>
          cases hs
          exact ⟨hrun₁, hrx, hreplay⟩
      | stop =>
          obtain ⟨-, heq⟩ := Option.ite_none_right_eq_some.mp hs
          cases heq
          exact ⟨rfl, hrx, hreplay⟩
      | join =>
          obtain ⟨-, heq⟩ := Option.ite_none_right_eq_some.mp hs
          cases heq
          exact ⟨hrun₁, hrx, hreplay⟩

theorem rxTurn_isSome {cfg : Config} {arrived : Option (Packet × UInt64)} {l : Life} (h : l.rx ≠ .returned) :
    (rxTurn cfg arrived l).isSome = true := by
  cases hpc : l.rx with
  | returned => exact absurd hpc h
  | testing => simp [rxTurn, hpc]
  | working =>
      cases hrx : l.threads.rx with
      | waiting =>
          cases arrived with
          | none => simp [rxTurn, hpc, hrx]
          | some arrival => simp [rxTurn, hpc, hrx, threadStep]
      | clocked pkt t | stored pkt t => simp [rxTurn, hpc, hrx, receiveStep]

theorem replayTurn_isSome {cfg : Config} {now : UInt64} {l : Life} (h : l.replay ≠ .returned) :
    (replayTurn cfg now l).isSome = true := by
  cases hpc : l.replay with
  | returned => exact absurd hpc h
  | testing | keyUp | pttOff => simp [replayTurn, hpc]
  | passing =>
      cases hreplay : l.threads.replay with
      | top => simp [replayTurn, hpc, hreplay, threadStep]
      | entered now | checked now | loaded now sinceRx | silent now | dropping now | guarding now | draining now
      | sequencing now next => simp [replayTurn, hpc, hreplay, replayStep]

theorem rxLeft_le (l : Life) : rxLeft l ≤ 4 := by
  rw [rxLeft]
  split <;> decide

theorem replayLeft_le (l : Life) : replayLeft l ≤ 12 := by
  rw [replayLeft]
  split
  · cases l.threads.replay <;> simp [passLeft]
  all_goals decide

/-- The service never leaves the transmitter keyed when it ends, whenever it is stopped and whatever is
sent to it or done to the device. Once replay_worker has returned, its last calls have released both
lines, and they stay so; stop returns only with both threads at their end, the port and the socket
closed; and after the stop each thread, never blocked, takes at most as many turns as one round has. -/
theorem released_by_stop (cfg : Config) (present : Bool) (acts : List Action) (l : Life)
    (h : Run (lifeStep cfg) (fun _ _ => True) (launch present) acts l) :
    (l.replay = .returned → l.threads.server.port.dtr = false ∧ l.threads.server.port.rts = false ∧
      lastKey l.threads.server.log = some false ∧ lastPtt l.threads.server.log = some false) ∧
    (l.owner = .stopped → l.rx = .returned ∧ l.replay = .returned ∧ l.threads.server.port.fd = none ∧
      l.listening = false) ∧
    (l.rx ≠ .returned → ∀ arrived, (rxTurn cfg arrived l).isSome) ∧
    (l.replay ≠ .returned → ∀ now, (replayTurn cfg now l).isSome) ∧
    (l.isRunning = false → ∀ acts' l', Run (lifeStep cfg) (fun _ _ => True) l acts' l' →
      acts'.countP isRx ≤ 4 ∧ acts'.countP isReplay ≤ 12) := by
  have hended : Ended l := h.invariant Ended (ended_launch present) fun _ _ _ hk _ hs => hk.lifeStep hs
  refine ⟨?_, hended.stopped, fun hrx _ => rxTurn_isSome hrx, fun hreplay _ => replayTurn_isSome hreplay, ?_⟩
  · intro hreturned
    obtain ⟨hdtr, hkey⟩ := hended.key (.inr hreturned)
    obtain ⟨hrts, hptt⟩ := hended.ptt hreturned
    exact ⟨hdtr, hrts, hkey, hptt⟩
  · intro hrun acts' l' hacts
    obtain ⟨-, hrx, hreplay⟩ := turnsLeft_of_stopped hrun hacts
    have hrxLe := rxLeft_le l
    have hreplayLe := replayLeft_le l
    exact ⟨by omega, by omega⟩

/-- A key-down is replayed and the owner stops the server in the middle of the element. -/
def stoppedKeyed : List Action :=
  [.rx none, .rx (some (⟨7, 0, [⟨1, keyDown⟩]⟩, 1000)), .rx none, .rx none] ++ List.replicate 8
    (.replay 151000) ++
    [.stop] ++ List.replicate 3 (.replay 152000) ++ [.rx none, .join]

theorem stoppedKeyed_released :
    ∃ l, Run (lifeStep .default) (fun _ _ => True) (launch true) stoppedKeyed l ∧ l.owner = .stopped ∧
      .setKey 151000 true ∈ l.threads.server.log ∧ l.threads.server.port.dtr = false ∧
      l.threads.server.port.rts = false := by
  obtain ⟨l, hrun, hview⟩ := run_of_exec_map (lifeStep .default) (fun _ _ => True) (launch true) stoppedKeyed
    (fun l => (l.owner, decide (.setKey 151000 true ∈ l.threads.server.log))) (.stopped, true)
      (by decide +kernel)
  obtain ⟨howner, hkeyed⟩ := Prod.mk.inj hview
  obtain ⟨hreleased, hstopped, -⟩ := released_by_stop .default true stoppedKeyed l hrun
  obtain ⟨hdtr, hrts, -⟩ := hreleased (hstopped howner).2.1
  exact ⟨l, hrun, howner, of_decide_eq_true hkeyed, hdtr, hrts⟩

end Cwsd.RemoteKeyShutdown

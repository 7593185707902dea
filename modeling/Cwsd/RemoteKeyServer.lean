import Cwsd.RemoteKeyProtocol

namespace Cwsd.RemoteKeyServer

open RemoteKeyProtocol

structure Config where
  playoutMs : UInt32
  silenceMs : UInt32
  maxKeyDownMs : UInt32
  pttLeadMs : UInt32
  pttTailMs : UInt32
  deriving DecidableEq, Repr

def Config.default : Config :=
  { playoutMs := 150, silenceMs := 250, maxKeyDownMs := 5000, pttLeadMs := 10, pttTailMs := 100 }

def us (ms : UInt32) : UInt64 := ms.toUInt64 * 1000

/-- An edge of the jitter buffer. The source keeps its time and state; the session,
the operator's timestamp and the clock at arrival say which edge it is and are
read by nothing. -/
structure ScheduledEdge where
  atUs : UInt64
  state : UInt8
  session : UInt16
  tsUs : UInt64
  rxUs : UInt64
  deriving DecidableEq, Repr

def ScheduledEdge.isDown (e : ScheduledEdge) : Bool := e.state &&& keyDown != 0

/-- What the engine did, each with the clock of its pass: the calls on the keying
lines, the end of a call of force_safe, and the edges that entered and left the
jitter buffer. -/
inductive Event
  | setKey (now : UInt64) (down : Bool)
  | setPtt (now : UInt64) (on : Bool)
  | forceSafe (now : UInt64)
  | pushed (e : ScheduledEdge)
  | popped (now : UInt64) (e : ScheduledEdge)
  deriving DecidableEq, Repr

/-- The keying device, its lines, and the descriptor held on it. Each removal starts
a new generation of the device, and a descriptor remembers the one it was opened on. -/
structure Port where
  present : Bool
  generation : Nat
  dtr : Bool
  rts : Bool
  fd : Option Nat
  deriving DecidableEq, Repr

namespace Port

def openPort (p : Port) : Port :=
  if p.present then { p with fd := some p.generation, dtr := false, rts := false }
  else { p with fd := none }

def live (p : Port) : Bool := p.present && p.fd == some p.generation

def setDtr (on : Bool) (p : Port) : Port := if p.live then { p with dtr := on } else p

def setRts (on : Bool) (p : Port) : Port := if p.live then { p with rts := on } else p

def setKey (down : Bool) (p : Port) : Port := if p.fd.isNone then p else p.setDtr down

def setPtt (on : Bool) (p : Port) : Port := if p.fd.isNone then p else p.setRts on

def plug (p : Port) : Port :=
  if p.present then p else { p with present := true, dtr := false, rts := false }

def unplug (p : Port) : Port :=
  { p with present := false, generation := p.generation + 1, dtr := false, rts := false }

end Port

/-- The members of remote_key_server and the locals of replay_worker. The last
clock reading and the log, newest first, are read by nothing. -/
structure Server where
  port : Port
  queue : List ScheduledEdge
  haveAnchor : Bool
  anchorSrcUs : UInt64
  anchorLocalUs : UInt64
  lastEnqueuedSrc : UInt64
  sessionId : UInt16
  haveSession : Bool
  lastRxUs : UInt64
  resetRequested : Bool
  keyIsDown : Bool
  keyDownSinceUs : UInt64
  pttIsOn : Bool
  pttReleaseAtUs : UInt64
  lastIfaceCheck : UInt64
  clockUs : UInt64
  log : List Event
  deriving DecidableEq, Repr

def start (present : Bool) : Server :=
  { port := (Port.mk present 0 false false none).openPort
    queue := [], haveAnchor := false, anchorSrcUs := 0, anchorLocalUs := 0, lastEnqueuedSrc := 0
    sessionId := 0, haveSession := false, lastRxUs := 0, resetRequested := false
    keyIsDown := false, keyDownSinceUs := 0, pttIsOn := false, pttReleaseAtUs := 0
    lastIfaceCheck := 0, clockUs := 0, log := [] }

def emit (e : Event) (s : Server) : Server := { s with log := e :: s.log }

def setKey (now : UInt64) (down : Bool) (s : Server) : Server :=
  emit (.setKey now down) { s with port := s.port.setKey down }

def setPtt (now : UInt64) (on : Bool) (s : Server) : Server :=
  emit (.setPtt now on) { s with port := s.port.setPtt on }

def forceSafe (now : UInt64) (s : Server) : Server :=
  emit (.forceSafe now) (setPtt now false (setKey now false s))

def safeState (now : UInt64) (s : Server) : Server :=
  { forceSafe now s with keyIsDown := false, pttIsOn := false }

def opensSession (pkt : Packet) (s : Server) : Bool :=
  !s.haveSession || pkt.sessionId != s.sessionId || pkt.flags &&& flagSessionReset != 0

def openSession (pkt : Packet) (s : Server) : Server :=
  if opensSession pkt s then
    { s with
      sessionId := pkt.sessionId, haveSession := true, haveAnchor := false, lastEnqueuedSrc := 0
      queue := [], resetRequested := true }
  else s

def anchor (cfg : Config) (now : UInt64) (e : Edge) (s : Server) : Server :=
  if s.haveAnchor then s
  else { s with anchorSrcUs := e.tsUs, anchorLocalUs := now + us cfg.playoutMs, haveAnchor := true }

def schedule (now : UInt64) (e : Edge) (s : Server) : UInt64 :=
  let scheduled := s.anchorLocalUs + (e.tsUs - s.anchorSrcUs)
  if scheduled < now then now else scheduled

def pushEdge (cfg : Config) (now : UInt64) (s : Server) (e : Edge) : Server :=
  if e.tsUs ≤ s.lastEnqueuedSrc then s
  else
    let s := { anchor cfg now e s with lastEnqueuedSrc := e.tsUs }
    let se : ScheduledEdge :=
      { atUs := schedule now e s, state := e.state, session := s.sessionId, tsUs := e.tsUs, rxUs := now }
    emit (.pushed se) { s with queue := s.queue ++ [se] }

def enqueue (cfg : Config) (now : UInt64) (pkt : Packet) (s : Server) : Server :=
  pkt.edges.foldl (pushEdge cfg now) (openSession pkt s)

def storeRx (now : UInt64) (s : Server) : Server := { s with lastRxUs := now }

def handlePacket (cfg : Config) (now : UInt64) (pkt : Packet) (s : Server) : Server :=
  enqueue cfg now pkt (storeRx now { s with clockUs := now })

/-- A datagram as recvfrom cuts it; a malformed one is ignored before the clock is read. -/
def receiveDatagram (cfg : Config) (now : UInt64) (datagram : List UInt8) (s : Server) : Server :=
  match decode (datagram.take maxPacketBytes) with
  | none => s
  | some pkt => handlePacket cfg now pkt s

/-- An encoded packet arrives whole, with the freshest of its edges. -/
theorem receiveDatagram_encode (cfg : Config) (now : UInt64) (pkt : Packet) (s : Server) :
    receiveDatagram cfg now (encode pkt) s =
      handlePacket cfg now { pkt with edges := pkt.edges.drop (pkt.edges.length - maxEdges) } s := by
  rw [receiveDatagram, List.take_of_length_le (encode_length_le pkt), decode_encode]

def reconnect (now : UInt64) (s : Server) : Server :=
  if s.port.fd = none ∧ 100000 < now - s.lastIfaceCheck then
    { s with lastIfaceCheck := now, port := s.port.openPort }
  else s

def checkReset (now : UInt64) (s : Server) : Server :=
  if s.resetRequested then safeState now { s with resetRequested := false } else s

/-- The silence test, given the difference computed before and the second load. -/
def isSilent (cfg : Config) (sinceRx lastRx : UInt64) : Bool :=
  lastRx != 0 && decide (us cfg.silenceMs < sinceRx)

def silenceSafe (now : UInt64) (s : Server) : Server :=
  if s.keyIsDown || s.pttIsOn then safeState now s else s

def dropStream (s : Server) : Server := { s with queue := [], haveAnchor := false }

def checkSilence (cfg : Config) (now : UInt64) (s : Server) : Server :=
  if isSilent cfg (now - s.lastRxUs) s.lastRxUs then dropStream (silenceSafe now s) else s

def checkWatchdog (cfg : Config) (now : UInt64) (s : Server) : Server :=
  if s.keyIsDown ∧ us cfg.maxKeyDownMs < now - s.keyDownSinceUs then
    { setKey now false s with keyIsDown := false }
  else s

def pttForEdge (now : UInt64) (down : Bool) (s : Server) : Server :=
  if down && !s.pttIsOn then { setPtt now true s with pttIsOn := true } else s

def keyForEdge (cfg : Config) (now : UInt64) (down : Bool) (s : Server) : Server :=
  if down = s.keyIsDown then s
  else if down then { setKey now down s with keyIsDown := down, keyDownSinceUs := now }
  else { setKey now down s with keyIsDown := down, pttReleaseAtUs := now + us cfg.pttTailMs }

def applyEdge (cfg : Config) (now : UInt64) (se : ScheduledEdge) (s : Server) : Server :=
  keyForEdge cfg now se.isDown (pttForEdge now se.isDown (emit (.popped now se) s))

def applyDue (cfg : Config) (now : UInt64) : List ScheduledEdge → Server → Server
  | [], s => { s with queue := [] }
  | se :: rest, s =>
      if se.atUs ≤ now then applyDue cfg now rest (applyEdge cfg now se s)
      else { s with queue := se :: rest }

def drain (cfg : Config) (now : UInt64) (s : Server) : Server := applyDue cfg now s.queue s

def pttLead (cfg : Config) (now : UInt64) (next : Option ScheduledEdge) (s : Server) : Server :=
  match next with
  | none => s
  | some e =>
      if e.isDown && !s.pttIsOn && decide (e.atUs ≤ now + us cfg.pttLeadMs) then
        { setPtt now true s with pttIsOn := true }
      else s

def keydownPending (cfg : Config) (now : UInt64) (next : Option ScheduledEdge) : Bool :=
  next.any fun e => e.isDown && decide (e.atUs < now + us cfg.pttTailMs)

def pttTail (cfg : Config) (now : UInt64) (next : Option ScheduledEdge) (s : Server) : Server :=
  if s.pttIsOn && !s.keyIsDown && decide (s.pttReleaseAtUs ≤ now) && !keydownPending cfg now next then
    { setPtt now false s with pttIsOn := false }
  else s

def wake (now : UInt64) (next : Option ScheduledEdge) (s : Server) : UInt64 :=
  let wake := now + 5000
  let wake := match next with
    | some e => if e.atUs < wake then e.atUs else wake
    | none => wake
  if s.pttIsOn && !s.keyIsDown && decide (s.pttReleaseAtUs < wake) then s.pttReleaseAtUs else wake

def checks (cfg : Config) (now : UInt64) (s : Server) : Server :=
  checkWatchdog cfg now (checkSilence cfg now (checkReset now (reconnect now s)))

def sequencePtt (cfg : Config) (now : UInt64) (next : Option ScheduledEdge) (s : Server) : Server :=
  pttTail cfg now next (pttLead cfg now next s)

def replayPass (cfg : Config) (now : UInt64) (s : Server) : Server :=
  let s := drain cfg now (checks cfg now { s with clockUs := now })
  sequencePtt cfg now s.queue.head? s

inductive Action
  | datagram (now : UInt64) (bytes : List UInt8)
  | pass (now : UInt64)
  | plug
  | unplug
  deriving DecidableEq, Repr

def step (cfg : Config) (s : Server) : Action → Option Server
  | .datagram now bytes => some (receiveDatagram cfg now bytes s)
  | .pass now => some (replayPass cfg now s)
  | .plug => some { s with port := s.port.plug }
  | .unplug => some { s with port := s.port.unplug }

theorem toNat_us (ms : UInt32) : (us ms).toNat = ms.toNat * 1000 := by
  have h := ms.toNat_lt
  rw [us, UInt64.toNat_mul, UInt32.toNat_toUInt64]
  simp only [UInt64.reduceToNat]
  omega

theorem toNat_add_us {t : UInt64} {ms : UInt32} (h : t.toNat + ms.toNat * 1000 < 2 ^ 64) :
    (t + us ms).toNat = t.toNat + ms.toNat * 1000 := by
  rw [UInt64.toNat_add, toNat_us]
  exact Nat.mod_eq_of_lt h

structure Receiver where
  anchorSrcUs : UInt64
  anchorLocalUs : UInt64
  lastEnqueuedSrc : UInt64
  sessionId : UInt16
  haveSession : Bool
  lastRxUs : UInt64
  clockUs : UInt64

def receiver (s : Server) : Receiver :=
  ⟨s.anchorSrcUs, s.anchorLocalUs, s.lastEnqueuedSrc, s.sessionId, s.haveSession, s.lastRxUs, s.clockUs⟩

structure Engine where
  port : Port
  keyIsDown : Bool
  keyDownSinceUs : UInt64
  pttIsOn : Bool
  pttReleaseAtUs : UInt64
  lastIfaceCheck : UInt64

def engine (s : Server) : Engine :=
  ⟨s.port, s.keyIsDown, s.keyDownSinceUs, s.pttIsOn, s.pttReleaseAtUs, s.lastIfaceCheck⟩

section

variable (cfg : Config) (now : UInt64) (s : Server)

@[simp] theorem receiver_reconnect : receiver (reconnect now s) = receiver s := by
  simp only [reconnect]
  split <;> rfl

@[simp] theorem receiver_checkReset : receiver (checkReset now s) = receiver s := by
  simp only [checkReset]
  split <;> rfl

@[simp] theorem receiver_checkSilence : receiver (checkSilence cfg now s) = receiver s := by
  simp only [checkSilence, silenceSafe]
  split
  · split <;> rfl
  · rfl

@[simp] theorem receiver_checkWatchdog : receiver (checkWatchdog cfg now s) = receiver s := by
  simp only [checkWatchdog]
  split <;> rfl

@[simp] theorem receiver_checks : receiver (checks cfg now s) = receiver s := by simp [checks]

@[simp] theorem receiver_pttForEdge (down : Bool) : receiver (pttForEdge now down s) = receiver s := by
  simp only [pttForEdge]
  split <;> rfl

@[simp] theorem receiver_keyForEdge (down : Bool) : receiver (keyForEdge cfg now down s) = receiver s := by
  simp only [keyForEdge]
  split
  · rfl
  · split <;> rfl

@[simp] theorem receiver_applyEdge (se : ScheduledEdge) : receiver (applyEdge cfg now se s) = receiver s := by
  rw [applyEdge, receiver_keyForEdge, receiver_pttForEdge]
  rfl

@[simp] theorem receiver_applyDue (due : List ScheduledEdge) :
    receiver (applyDue cfg now due s) = receiver s := by
  induction due generalizing s with
  | nil => rfl
  | cons se due ih =>
      simp only [applyDue]
      split
      · rw [ih, receiver_applyEdge]
      · rfl

@[simp] theorem receiver_pttLead (next : Option ScheduledEdge) :
    receiver (pttLead cfg now next s) = receiver s := by
  simp only [pttLead]
  split
  · rfl
  · split <;> rfl

@[simp] theorem receiver_pttTail (next : Option ScheduledEdge) :
    receiver (pttTail cfg now next s) = receiver s := by
  simp only [pttTail]
  split <;> rfl

theorem resetRequested_applyDue (due : List ScheduledEdge) :
    (applyDue cfg now due s).resetRequested = s.resetRequested := by
  have hedge (se : ScheduledEdge) (s : Server) : (applyEdge cfg now se s).resetRequested = s.resetRequested := by
    simp only [applyEdge, keyForEdge, pttForEdge]
    repeat' split
    all_goals rfl
  induction due generalizing s with
  | nil => rfl
  | cons se due ih =>
      rw [applyDue]
      split
      · rw [ih, hedge]
      · rfl

/-- What the drain leaves at the front is not due. -/
theorem front_applyDue (due : List ScheduledEdge) :
    ∀ e ∈ (applyDue cfg now due s).queue.head?, now < e.atUs := by
  induction due generalizing s with
  | nil => exact nofun
  | cons se due ih =>
      rw [applyDue]
      split
      · exact ih _
      · rename_i hlater
        intro e he
        cases he
        exact UInt64.not_le.mp hlater

theorem receiver_pass : receiver (replayPass cfg now s) = { receiver s with clockUs := now } := by
  rw [replayPass, sequencePtt, receiver_pttTail, receiver_pttLead, drain, receiver_applyDue, receiver_checks]
  rfl

/-- The silence test of a pass sees the time that was stored before the pass. -/
theorem lastRxUs_checkReset :
    (checkReset now (reconnect now { s with clockUs := now })).lastRxUs = s.lastRxUs :=
  congrArg Receiver.lastRxUs ((receiver_checkReset now _).trans (receiver_reconnect now _))

theorem reconnect_eq :
    ∃ lastIfaceCheck port, reconnect now s = { s with lastIfaceCheck := lastIfaceCheck, port := port } := by
  rw [reconnect]
  split
  · exact ⟨_, _, rfl⟩
  · exact ⟨_, _, rfl⟩

/-- A pass that finds the stream heard makes its other checks. -/
theorem checks_of_heard {cfg : Config} (h : isSilent cfg (now - s.lastRxUs) s.lastRxUs = false) :
    checks cfg now { s with clockUs := now } =
      checkWatchdog cfg now (checkReset now (reconnect now { s with clockUs := now })) := by
  rw [checks, checkSilence, lastRxUs_checkReset, h, if_neg Bool.false_ne_true]

@[simp] theorem engine_openSession (pkt : Packet) : engine (openSession pkt s) = engine s := by
  simp only [openSession]
  split <;> rfl

@[simp] theorem engine_pushEdge (e : Edge) : engine (pushEdge cfg now s e) = engine s := by
  simp only [pushEdge, anchor]
  split
  · rfl
  · split <;> rfl

theorem clockUs_pushEdge (e : Edge) : (pushEdge cfg now s e).clockUs = s.clockUs ∧
    (pushEdge cfg now s e).lastRxUs = s.lastRxUs := by
  simp only [pushEdge, anchor]
  split
  · exact ⟨rfl, rfl⟩
  · split <;> exact ⟨rfl, rfl⟩

theorem engine_handlePacket (pkt : Packet) : engine (handlePacket cfg now pkt s) = engine s := by
  have hfold (edges : List Edge) (s : Server) : engine (edges.foldl (pushEdge cfg now) s) = engine s := by
    induction edges generalizing s with
    | nil => rfl
    | cons e edges ih => rw [List.foldl_cons, ih, engine_pushEdge]
  rw [handlePacket, enqueue, hfold, engine_openSession]
  rfl

theorem clockUs_handlePacket (pkt : Packet) : (handlePacket cfg now pkt s).clockUs = now ∧
    (handlePacket cfg now pkt s).lastRxUs = now := by
  have hfold (edges : List Edge) (s : Server) : (edges.foldl (pushEdge cfg now) s).clockUs = s.clockUs ∧
      (edges.foldl (pushEdge cfg now) s).lastRxUs = s.lastRxUs := by
    induction edges generalizing s with
    | nil => exact ⟨rfl, rfl⟩
    | cons e edges ih =>
        obtain ⟨hc, hr⟩ := clockUs_pushEdge cfg now s e
        rw [List.foldl_cons, (ih _).1, (ih _).2, hc, hr]
        exact ⟨rfl, rfl⟩
  obtain ⟨hc, hr⟩ := hfold pkt.edges (openSession pkt (storeRx now { s with clockUs := now }))
  rw [handlePacket, enqueue, hc, hr]
  simp only [openSession]
  split <;> exact ⟨rfl, rfl⟩

end

end Cwsd.RemoteKeyServer

import Cwsd.RemoteKeyServer
import Cwsd.Runs

namespace Cwsd.RemoteKeyThreads

open RemoteKeyProtocol RemoteKeyServer

/-- Where receive_worker stands: in recvfrom, after its clock reading, or after the
store of last_rx_us and before the lock. -/
inductive RxPc
  | waiting
  | clocked (pkt : Packet) (t : UInt64)
  | stored (pkt : Packet) (t : UInt64)
  deriving DecidableEq, Repr

/-- Where replay_worker stands in its pass with the clock reading now. -/
inductive ReplayPc
  | top
  | entered (now : UInt64)
  | checked (now : UInt64)
  | loaded (now sinceRx : UInt64)
  | silent (now : UInt64)
  | dropping (now : UInt64)
  | guarding (now : UInt64)
  | draining (now : UInt64)
  | sequencing (now : UInt64) (next : Option ScheduledEdge)
  deriving DecidableEq, Repr

structure Threads where
  server : Server
  rx : RxPc
  replay : ReplayPc
  deriving DecidableEq, Repr

def startThreads (present : Bool) : Threads := ⟨start present, .waiting, .top⟩

inductive ThreadAction
  | arrive (pkt : Packet) (t : UInt64)
  | receive
  | tick (now : UInt64)
  | replay
  deriving DecidableEq, Repr

def receiveStep (cfg : Config) (st : Threads) : Option Threads :=
  match st.rx with
  | .waiting => none
  | .clocked pkt t => some { st with server := storeRx t st.server, rx := .stored pkt t }
  | .stored pkt t => some { st with server := enqueue cfg t pkt st.server, rx := .waiting }

/-- The steps of replay_worker after its clock reading: the reconnection and the
exchange of the reset flag, the two loads of last_rx_us, the two halves of the
silence branch, the watchdog, the drain, and the PTT sequencing. -/
def replayStep (cfg : Config) (st : Threads) : Option Threads :=
  match st.replay with
  | .top => none
  | .entered now => some { st with server := checkReset now (reconnect now st.server), replay := .checked now }
  | .checked now => some { st with replay := .loaded now (now - st.server.lastRxUs) }
  | .loaded now sinceRx =>
      some { st with
        replay := if isSilent cfg sinceRx st.server.lastRxUs then .silent now else .guarding now }
  | .silent now => some { st with server := silenceSafe now st.server, replay := .dropping now }
  | .dropping now => some { st with server := dropStream st.server, replay := .guarding now }
  | .guarding now => some { st with server := checkWatchdog cfg now st.server, replay := .draining now }
  | .draining now =>
      let s := drain cfg now st.server
      some { st with server := s, replay := .sequencing now s.queue.head? }
  | .sequencing now next => some { st with server := sequencePtt cfg now next st.server, replay := .top }

def threadStep (cfg : Config) (st : Threads) : ThreadAction → Option Threads
  | .arrive pkt t =>
      if st.rx = .waiting then
        some { st with server := { st.server with clockUs := t }, rx := .clocked pkt t }
      else none
  | .receive => receiveStep cfg st
  | .tick now =>
      if st.replay = .top then
        some { st with server := { st.server with clockUs := now }, replay := .entered now }
      else none
  | .replay => replayStep cfg st

def ClockOk (st : Threads) : ThreadAction → Prop
  | .arrive _ t | .tick t => st.server.clockUs ≤ t
  | .receive | .replay => True

instance (st : Threads) (act : ThreadAction) : Decidable (ClockOk st act) :=
  match act with
  | .arrive _ _ | .tick _ => inferInstanceAs (Decidable (_ ≤ _))
  | .receive | .replay => inferInstanceAs (Decidable True)

def finishPass (cfg : Config) : Nat → Threads → Option Threads
  | 0, st => some st
  | n + 1, st => if st.replay = .top then some st else (replayStep cfg st).bind (finishPass cfg n)

theorem finishPass_eq_pass (cfg : Config) (now : UInt64) (st : Threads) (h : st.replay = .top) :
    ((threadStep cfg st (.tick now)).bind (finishPass cfg 8)) =
      some { st with server := replayPass cfg now st.server } := by
  obtain ⟨s, rx, replay⟩ := st
  cases h
  have hpass (t : Server) (ht : checkSilence cfg now (checkReset now (reconnect now { s with clockUs := now })) = t) :
      replayPass cfg now s = sequencePtt cfg now (drain cfg now (checkWatchdog cfg now t)).queue.head?
        (drain cfg now (checkWatchdog cfg now t)) := by
    rw [← ht]
    rfl
  generalize hs : checkReset now (reconnect now { s with clockUs := now }) = s₁ at hpass
  cases hsilent : isSilent cfg (now - s₁.lastRxUs) s₁.lastRxUs with
  | true =>
      rw [hpass (dropStream (silenceSafe now s₁)) (by rw [checkSilence, if_pos hsilent])]
      simp [threadStep, finishPass, replayStep, hs, hsilent]
  | false =>
      rw [hpass s₁ (by rw [checkSilence, hsilent, if_neg Bool.false_ne_true])]
      simp [threadStep, finishPass, replayStep, hs, hsilent]

theorem receive_eq_handlePacket (cfg : Config) (pkt : Packet) (t : UInt64) (st : Threads)
    (h : st.rx = .waiting) :
    ((threadStep cfg st (.arrive pkt t)).bind fun st => (receiveStep cfg st).bind (receiveStep cfg)) =
      some { st with server := handlePacket cfg t pkt st.server } := by
  obtain ⟨s, rx, replay⟩ := st
  cases h
  rfl

end Cwsd.RemoteKeyThreads

import Cwsd.RemoteKeyKeying

namespace Cwsd.RemoteKeyLink

open RemoteKeyProtocol RemoteKeyServer RemoteKeyStream RemoteKeyKeying HighWater Runs

/-- The rig's end of the link, with the newest edge index received so far. -/
structure Link where
  server : Server
  newest : Nat

inductive LinkAction
  | datagram (now : UInt64) (m : Nat) (flags : UInt8)
  | pass (now : UInt64)
  | plug
  | unplug
  deriving DecidableEq, Repr

section

variable (cfg : Config) (history : List Edge) (session : UInt16)

def linkStep (l : Link) : LinkAction → Option Link
  | .datagram now m flags =>
      some ⟨receiveDatagram cfg now (encode ⟨session, flags, history.take m⟩) l.server, max l.newest m⟩
  | .pass now => some { l with server := replayPass cfg now l.server }
  | .plug => some { l with server := { l.server with port := l.server.port.plug } }
  | .unplug => some { l with server := { l.server with port := l.server.port.unplug } }

/-- Any loss, duplication and reordering, as long as the newest index advances by at
most the length of the history in a packet; no reset after the first packet; and
passes in which neither silence nor the watchdog fires. -/
def Lossy (l : Link) : LinkAction → Prop
  | .datagram _ m flags => m ≤ history.length ∧ m ≤ l.newest + maxEdges ∧
      (l.server.haveSession = true → flags &&& flagSessionReset = 0)
  | .pass now => Undisturbed cfg now l.server
  | .plug | .unplug => True

instance (l : Link) (act : LinkAction) : Decidable (Lossy cfg history l act) :=
  match act with
  | .datagram _ _ _ => inferInstanceAs (Decidable (_ ∧ _ ∧ (_ → _)))
  | .pass now => inferInstanceAs (Decidable (Undisturbed cfg now l.server))
  | .plug | .unplug => inferInstanceAs (Decidable True)

end

structure Inv (history : List Edge) (session : UInt16) (n : Nat) (s : Server) : Prop where
  newest : n ≤ history.length
  pushed : (pushedEdges s.log).map toEdge = history.take n
  fifo : pushedEdges s.log = poppedEdges s.log ++ s.queue
  mark : s.haveSession = true → s.lastEnqueuedSrc.toNat = top tsNat (history.take n)
  session : s.haveSession = true → s.sessionId = session
  unheard : s.haveSession = false → n = 0 ∧ s.resetRequested = false ∧ (keying s).safes = 0
  inStep : InStep (keying s)
  first : s.resetRequested = true → poppedEdges s.log = [] ∧ (keying s).safes = 0
  safes : (keying s).safes ≤ 1

variable {cfg : Config} {history : List Edge} {session : UInt16} {n : Nat} {now : UInt64} {s : Server}

theorem inv_openSession (pkt : Packet) (h : Inv history session n s) (hid : pkt.sessionId = session)
    (hflags : s.haveSession = true → pkt.flags &&& flagSessionReset = 0) :
    Inv history session n (openSession pkt s) ∧ (openSession pkt s).haveSession = true := by
  cases hs : s.haveSession with
  | true =>
      have hno : opensSession pkt s = false := by
        simp [opensSession, hs, hid, h.session hs, hflags hs]
      rw [openSession, hno, if_neg Bool.false_ne_true]
      exact ⟨h, hs⟩
  | false =>
      obtain ⟨rfl, -, hsafes⟩ := h.unheard hs
      have hpushed : pushedEdges s.log = [] := by simpa using h.pushed
      obtain ⟨hpopped, hqueue⟩ := List.append_eq_nil_iff.mp (h.fifo.symm.trans hpushed)
      rw [openSession, if_pos (by simp [opensSession, hs])]
      refine ⟨⟨h.newest, h.pushed, ?_, fun _ => rfl, fun _ => hid, by simp, ⟨h.inStep.calls, h.inStep.down⟩,
        fun _ => ⟨hpopped, hsafes⟩, h.safes⟩, rfl⟩
      rw [hpushed, hpopped]
      rfl

theorem inv_enqueue {edges : List Edge} {s' : Server} {m : Nat} (h : Inv history session n s)
    (hs : s.haveSession = true) (hsorted : history.Pairwise fun a b => a.tsUs < b.tsUs)
    (hpos : ∀ e ∈ history, 0 < e.tsUs) (hm : m ≤ history.length) (hwindow : m ≤ n + maxEdges)
    (hedges : edges = (history.take m).drop (m - maxEdges)) (he : Enqueued edges s s') :
    Inv history session (max n m) s' := by
  have hsorted' : history.Pairwise fun a b => tsNat a < tsNat b :=
    hsorted.imp fun hlt => UInt64.lt_iff_toNat_lt.mp hlt
  have hpos' : ∀ e ∈ history, 0 < tsNat e := fun e he => UInt64.lt_iff_toNat_lt.mp (hpos e he)
  obtain ⟨habove, hmark⟩ := above_window hsorted' hpos' n m (m - maxEdges) (by omega)
  obtain ⟨new, hnew, hq, hp⟩ := he.pushed
  rw [hedges, h.mark hs, habove] at hnew
  have hmark' := he.mark
  rw [hedges, h.mark hs, hmark] at hmark'
  have hreset : s'.resetRequested = s.resetRequested := congrArg Keying.reset he.keying
  refine ⟨Nat.max_le.mpr ⟨h.newest, hm⟩, ?_, ?_, fun _ => hmark', fun _ => he.session.1.trans (h.session hs), ?_,
    by rw [he.keying]; exact h.inStep, ?_, by rw [he.keying]; exact h.safes⟩
  · rw [hp, List.map_append, h.pushed, hnew]
    rcases Nat.le_total m n with hle | hle
    · rw [Nat.max_eq_left hle, List.drop_eq_nil_of_le (Nat.le_trans (List.length_take_le _ _) hle),
        List.append_nil]
    · have htake : history.take n = (history.take m).take n := by rw [List.take_take, Nat.min_eq_left hle]
      rw [Nat.max_eq_right hle, htake, List.take_append_drop]
  · rw [hp, h.fifo, he.popped, hq, List.append_assoc]
  · intro hno
    rw [he.session.2, hs] at hno
    cases hno
  · intro hr
    rw [hreset] at hr
    rw [he.popped, he.keying]
    exact h.first hr

theorem inv_pass (h : Inv history session n s) (hok : Undisturbed cfg now s) :
    Inv history session n (replayPass cfg now s) := by
  have hlevels : s.resetRequested = true → (keying s).levels = [] := by
    intro hr
    simp [keying, (h.first hr).1]
  obtain ⟨hstep, hreset, hsafes⟩ := inStep_pass h.inStep hok hlevels
  obtain ⟨out, rest, heq, -, hstream⟩ := stream_pass cfg now s
  rw [hok.1, if_neg Bool.false_ne_true] at heq
  have hr := receiver_pass cfg now s
  have hses : (replayPass cfg now s).haveSession = s.haveSession := congrArg Receiver.haveSession hr
  have hid : (replayPass cfg now s).sessionId = s.sessionId := congrArg Receiver.sessionId hr
  have hmark : (replayPass cfg now s).lastEnqueuedSrc = s.lastEnqueuedSrc := congrArg Receiver.lastEnqueuedSrc hr
  have hq : (replayPass cfg now s).queue = rest := congrArg Stream.queue hstream
  have hpops := edges_of_pops now out (stream s).history
  have hpushed : pushedEdges (replayPass cfg now s).log = pushedEdges s.log := by
    rw [← pushedEdges_history, hstream, hpops.1, pushedEdges_history]
  have hpopped : poppedEdges (replayPass cfg now s).log = poppedEdges s.log ++ out := by
    rw [← poppedEdges_history, hstream, hpops.2, poppedEdges_history]
  have hsafes' : (keying (replayPass cfg now s)).safes ≤ 1 := by
    rw [hsafes]
    split
    · rename_i hr
      rw [(h.first hr).2]
    · exact h.safes
  refine ⟨h.newest, by rw [hpushed]; exact h.pushed, ?_, ?_, ?_, ?_, hstep, ?_, hsafes'⟩
  · rw [hpushed, hpopped, hq, h.fifo, heq, List.append_assoc]
  · rw [hses, hmark]
    exact h.mark
  · rw [hses, hid]
    exact h.session
  · rw [hses]
    intro hno
    obtain ⟨hn, hnoReset, hzero⟩ := h.unheard hno
    refine ⟨hn, hreset, ?_⟩
    rw [hsafes, hzero, hnoReset]
    rfl
  · intro hyes
    have hno : (replayPass cfg now s).resetRequested = false := hreset
    rw [hno] at hyes
    cases hyes

theorem inv_step {l l' : Link} {act : LinkAction} (hsorted : history.Pairwise fun a b => a.tsUs < b.tsUs)
    (hpos : ∀ e ∈ history, 0 < e.tsUs) (h : Inv history session l.newest l.server)
    (hok : Lossy cfg history l act) (hs : linkStep cfg history session l act = some l') :
    Inv history session l'.newest l'.server := by
  cases act with
  | datagram now m flags =>
      cases hs
      have hreceive : receiveDatagram cfg now (encode ⟨session, flags, history.take m⟩) l.server =
          handlePacket cfg now ⟨session, flags, (history.take m).drop (m - maxEdges)⟩ l.server := by
        rw [receiveDatagram_encode]
        simp only [List.length_take, Nat.min_eq_left hok.1]
      have hstored : Inv history session l.newest (storeRx now { l.server with clockUs := now }) :=
        ⟨h.newest, h.pushed, h.fifo, h.mark, h.session, h.unheard, ⟨h.inStep.calls, h.inStep.down⟩,
          h.first, h.safes⟩
      obtain ⟨hopen, hses⟩ := inv_openSession ⟨session, flags, (history.take m).drop (m - maxEdges)⟩
        hstored rfl hok.2.2
      rw [hreceive]
      exact inv_enqueue hopen hses hsorted hpos hok.1 hok.2.1 rfl (enqueued_foldl _ _)
  | pass now =>
      cases hs
      exact inv_pass h hok
  | plug =>
      cases hs
      exact ⟨h.newest, h.pushed, h.fifo, h.mark, h.session, h.unheard, ⟨h.inStep.calls, h.inStep.down⟩,
        h.first, h.safes⟩
  | unplug =>
      cases hs
      exact ⟨h.newest, h.pushed, h.fifo, h.mark, h.session, h.unheard, ⟨h.inStep.calls, h.inStep.down⟩,
        h.first, h.safes⟩

/-- Keying survives a lossy link. In every run the edges pushed so far are the
operator's history up to the newest index received, each once and in order; the
edges applied are a prefix of them; and the calls of set_key since the one call of
force_safe for the new session are the changes of the key level along those edges. -/
theorem keying_survives_loss (cfg : Config) (history : List Edge) (session : UInt16) (present : Bool)
    (hsorted : history.Pairwise fun a b => a.tsUs < b.tsUs) (hpos : ∀ e ∈ history, 0 < e.tsUs)
    (acts : List LinkAction) (l : Link)
    (h : Run (linkStep cfg history session) (Lossy cfg history) ⟨start present, 0⟩ acts l) :
    (pushedEdges l.server.log).map toEdge = history.take l.newest ∧
      poppedEdges l.server.log <+: pushedEdges l.server.log ∧
      (callsSinceSafe l.server.log).reverse =
        changes false ((poppedEdges l.server.log).map ScheduledEdge.isDown) ∧
      l.server.log.countP isForceSafe ≤ 1 := by
  have hstart : Inv history session 0 (start present) :=
    ⟨Nat.zero_le _, rfl, rfl, by simp [start], by simp [start], fun _ => ⟨rfl, rfl, rfl⟩, ⟨rfl, rfl⟩,
      by simp [start], by simp [start, keying]⟩
  have hinv := h.invariant (fun l => Inv history session l.newest l.server) hstart
    fun _ _ _ hk hok hs => inv_step hsorted hpos hk hok hs
  exact ⟨hinv.pushed, by rw [hinv.fifo]; exact List.prefix_append _ _, hinv.inStep.calls, hinv.safes⟩

def dit : List Edge := [⟨1, keyDown⟩, ⟨60000, 0⟩]

def ditTwice : List LinkAction :=
  [.datagram 1000 1 flagSessionReset, .datagram 30000 2 0, .pass 151000, .datagram 152000 1 0, .pass 211000]

theorem ditTwice_keyed :
    ∃ l, Run (linkStep .default dit 7) (Lossy .default dit) ⟨start true, 0⟩ ditTwice l ∧ l.newest = 2 ∧
      (pushedEdges l.server.log).map toEdge = dit ∧ (callsSinceSafe l.server.log).reverse = [true, false] := by
  obtain ⟨l, hrun, hview⟩ := run_of_exec_map (linkStep .default dit 7) (Lossy .default dit) ⟨start true, 0⟩
    ditTwice (fun l => (l.newest, (poppedEdges l.server.log).map ScheduledEdge.isDown)) (2, [true, false])
    (by decide +kernel)
  obtain ⟨hnewest, hlevels⟩ := Prod.mk.inj hview
  obtain ⟨hpushed, -, hcalls, -⟩ := keying_survives_loss .default dit 7 true (by decide) (by decide) ditTwice l hrun
  refine ⟨l, hrun, hnewest, ?_, ?_⟩
  · rw [hpushed, hnewest]
    rfl
  · rw [hcalls, hlevels]
    rfl

end Cwsd.RemoteKeyLink

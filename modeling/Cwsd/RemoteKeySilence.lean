import Cwsd.RemoteKeyStream
import Cwsd.RemoteKeyThreads

namespace Cwsd.RemoteKeySilence

open RemoteKeyProtocol RemoteKeyServer RemoteKeyStream RemoteKeyThreads Runs

/-- A datagram of time t is more than the silence time older than now. -/
def Dead (cfg : Config) (now t : UInt64) : Prop := t.toNat + cfg.silenceMs.toNat * 1000 < now.toNat

instance (cfg : Config) (now t : UInt64) : Decidable (Dead cfg now t) := inferInstanceAs (Decidable (_ < _))

def deciding (cfg : Config) : ReplayPc → Option UInt64
  | .loaded now sinceRx => if us cfg.silenceMs < sinceRx then some now else none
  | .silent now | .dropping now => some now
  | _ => none

/-- The load for the difference finds no datagram newer than the clock of the
pass, and no live datagram is stored while the pass is deciding on silence. -/
def InTime (cfg : Config) (st : Threads) : ThreadAction → Prop
  | .receive => ∀ pkt t now, st.rx = .clocked pkt t → deciding cfg st.replay = some now → Dead cfg now t
  | .replay => ∀ now, st.replay = .checked now → st.server.lastRxUs ≤ now
  | .arrive _ _ | .tick _ => True

structure Inv (cfg : Config) (st : Threads) : Prop where
  clock : st.server.lastRxUs ≤ st.server.clockUs
  clocked : ∀ pkt t, st.rx = .clocked pkt t → st.server.lastRxUs ≤ t ∧ t ≤ st.server.clockUs
  stored : ∀ pkt t, st.rx = .stored pkt t → t ≤ st.server.lastRxUs
  queued : ∀ e ∈ st.server.queue, e.rxUs ≤ st.server.lastRxUs
  dead : ∀ now, deciding cfg st.replay = some now → Dead cfg now st.server.lastRxUs

variable {cfg : Config} {st st' : Threads}

theorem dead_iff {now t : UInt64} (h : t ≤ now) : us cfg.silenceMs < now - t ↔ Dead cfg now t := by
  have hle := UInt64.le_iff_toNat_le.mp h
  rw [Dead, UInt64.lt_iff_toNat_lt, UInt64.toNat_sub_of_le _ _ h, toNat_us]
  omega

theorem rx_of_enqueue (cfg : Config) (t : UInt64) (pkt : Packet) (s : Server) :
    (∀ e ∈ (enqueue cfg t pkt s).queue, e.rxUs = t ∨ e ∈ s.queue) ∧
      (enqueue cfg t pkt s).lastRxUs = s.lastRxUs ∧ (enqueue cfg t pkt s).clockUs = s.clockUs := by
  have hfold (edges : List Edge) (s : Server) :
      (∀ e ∈ (edges.foldl (pushEdge cfg t) s).queue, e.rxUs = t ∨ e ∈ s.queue) ∧
        (edges.foldl (pushEdge cfg t) s).lastRxUs = s.lastRxUs ∧
        (edges.foldl (pushEdge cfg t) s).clockUs = s.clockUs := by
    induction edges generalizing s with
    | nil => exact ⟨fun e he => .inr he, rfl, rfl⟩
    | cons e edges ih =>
        obtain ⟨hq, hrx, hclock⟩ := ih (pushEdge cfg t s e)
        obtain ⟨hc, hr⟩ := clockUs_pushEdge cfg t s e
        refine ⟨fun d hd => ?_, hrx.trans hr, hclock.trans hc⟩
        rcases hq d hd with ht | hmem
        · exact .inl ht
        rcases stream_pushEdge cfg t s e with ⟨-, hsame⟩ | ⟨-, -, se, -, -, -, hse, hstream⟩
        · exact .inr (hsame ▸ hmem)
        · have hqueue : (pushEdge cfg t s e).queue = s.queue ++ [se] := congrArg Stream.queue hstream
          rw [hqueue, List.mem_append, List.mem_singleton] at hmem
          exact hmem.symm.imp_left fun heq => by rw [heq]; exact hse
  obtain ⟨hq, hrx, hclock⟩ := hfold pkt.edges (openSession pkt s)
  have hopen : ((openSession pkt s).queue = s.queue ∨ (openSession pkt s).queue = []) ∧
      (openSession pkt s).lastRxUs = s.lastRxUs ∧ (openSession pkt s).clockUs = s.clockUs := by
    simp only [openSession]
    split
    · exact ⟨.inr rfl, rfl, rfl⟩
    · exact ⟨.inl rfl, rfl, rfl⟩
  refine ⟨fun e he => (hq e he).imp_right fun hmem => ?_, hrx.trans hopen.2.1, hclock.trans hopen.2.2⟩
  rcases hopen.1 with h | h
  · exact h ▸ hmem
  · rw [h] at hmem
    cases hmem

theorem inv_receive (h : Inv cfg st) (hok : InTime cfg st .receive) (hs : receiveStep cfg st = some st') :
    Inv cfg st' := by
  simp only [receiveStep] at hs
  split at hs
  · cases hs
  · rename_i pkt t hpc
    cases hs
    obtain ⟨hle, hclock⟩ := h.clocked pkt t hpc
    refine ⟨hclock, fun _ _ h => (by cases h), ?_, fun e he => UInt64.le_trans (h.queued e he) hle,
      fun now hd => hok pkt t now hpc hd⟩
    intro pkt' t' heq
    cases heq
    exact UInt64.le_refl t
  · rename_i pkt t hpc
    cases hs
    obtain ⟨hq, hrx, hclock⟩ := rx_of_enqueue cfg t pkt st.server
    refine ⟨by rw [hrx, hclock]; exact h.clock, fun _ _ h => (by cases h), fun _ _ h => (by cases h), ?_, ?_⟩
    · intro e he
      rw [hrx]
      exact (hq e he).elim (fun ht => ht ▸ h.stored pkt t hpc) (h.queued e)
    · intro now hd
      rw [hrx]
      exact h.dead now hd

theorem Inv.phase (h : Inv cfg st) {s : Server} {pc : ReplayPc} (hr : receiver s = receiver st.server)
    (hq : ∀ e ∈ s.queue, e ∈ st.server.queue)
    (hd : ∀ now, deciding cfg pc = some now → Dead cfg now st.server.lastRxUs) :
    Inv cfg { st with server := s, replay := pc } := by
  have hrx : s.lastRxUs = st.server.lastRxUs := congrArg Receiver.lastRxUs hr
  have hclock : s.clockUs = st.server.clockUs := congrArg Receiver.clockUs hr
  refine ⟨by rw [hrx, hclock]; exact h.clock, ?_, ?_, ?_, ?_⟩
  · intro pkt t hpc
    rw [hrx, hclock]
    exact h.clocked pkt t hpc
  · intro pkt t hpc
    rw [hrx]
    exact h.stored pkt t hpc
  · intro e he
    rw [hrx]
    exact h.queued e (hq e he)
  · intro now hnow
    rw [hrx]
    exact hd now hnow

theorem inv_replay (h : Inv cfg st) (hok : InTime cfg st .replay) (hs : replayStep cfg st = some st') :
    Inv cfg st' := by
  simp only [replayStep] at hs
  split at hs
  · cases hs
  · cases hs
    exact h.phase (by simp) (queue_of_stream (by simp)) (by simp [deciding])
  · rename_i now hpc
    cases hs
    refine h.phase rfl (fun e he => he) fun now' hd => ?_
    simp only [deciding] at hd
    split at hd
    · rename_i hlt
      cases hd
      exact (dead_iff (hok now hpc)).mp hlt
    · cases hd
  · rename_i now sinceRx hpc
    cases hs
    refine h.phase rfl (fun e he => he) fun now' hd => h.dead now' ?_
    split at hd
    · rename_i hsilent
      simp only [isSilent, Bool.and_eq_true, decide_eq_true_eq] at hsilent
      rw [hpc, ← hd]
      simp [deciding, hsilent.2]
    · cases hd
  · rename_i now hpc
    cases hs
    refine h.phase ?_ (queue_of_stream (by simp)) fun now' hd => h.dead now' (by rw [hpc]; exact hd)
    simp only [silenceSafe]
    split <;> rfl
  · cases hs
    exact h.phase rfl (by simp [dropStream]) (by simp [deciding])
  · cases hs
    exact h.phase (by simp) (queue_of_stream (by simp)) (by simp [deciding])
  · rename_i now hpc
    cases hs
    refine h.phase (receiver_applyDue cfg now st.server st.server.queue) ?_ (by simp [deciding])
    obtain ⟨out, rest, heq, -, hstream⟩ := stream_applyDue cfg now st.server st.server.queue
    have hq : (drain cfg now st.server).queue = rest := congrArg Stream.queue hstream
    rw [hq, heq]
    exact fun e he => List.mem_append_right out he
  · cases hs
    exact h.phase (by simp [sequencePtt]) (queue_of_stream (by simp)) (by simp [deciding])

theorem inv_step {act : ThreadAction} (h : Inv cfg st) (hok : ClockOk st act ∧ InTime cfg st act)
    (hs : threadStep cfg st act = some st') : Inv cfg st' := by
  cases act with
  | arrive pkt t =>
      simp only [threadStep] at hs
      split at hs
      · cases hs
        refine ⟨UInt64.le_trans h.clock hok.1, ?_, fun _ _ h => (by cases h), h.queued, h.dead⟩
        intro pkt' t' heq
        cases heq
        exact ⟨UInt64.le_trans h.clock hok.1, UInt64.le_refl t⟩
      · cases hs
  | receive => exact inv_receive h hok.2 hs
  | tick now =>
      simp only [threadStep] at hs
      split at hs
      · cases hs
        refine ⟨UInt64.le_trans h.clock hok.1, ?_, h.stored, h.queued, by simp [deciding]⟩
        intro pkt t hpc
        exact ⟨(h.clocked pkt t hpc).1, UInt64.le_trans (h.clocked pkt t hpc).2 hok.1⟩
      · cases hs
  | replay => exact inv_replay h hok.2 hs

/-- As long as no datagram slips in between the readings of a pass, silence is
declared only of a silent stream: the branch is taken only if the last datagram
stored is beyond the silence time, and so is every edge that the branch discards. -/
theorem silence_is_real (cfg : Config) (present : Bool) (acts : List ThreadAction) (st : Threads)
    (h : Run (threadStep cfg) (fun st act => ClockOk st act ∧ InTime cfg st act) (startThreads present) acts st) :
    (∀ now sinceRx, st.replay = .loaded now sinceRx → isSilent cfg sinceRx st.server.lastRxUs = true →
      Dead cfg now st.server.lastRxUs) ∧
    (∀ now, st.replay = .silent now ∨ st.replay = .dropping now →
      Dead cfg now st.server.lastRxUs ∧ ∀ e ∈ st.server.queue, Dead cfg now e.rxUs) := by
  have hstart : Inv cfg (startThreads present) :=
    ⟨UInt64.le_refl _, fun _ _ h => (by cases h), fun _ _ h => (by cases h), by simp [startThreads, start],
      by simp [startThreads, deciding]⟩
  have hinv := h.invariant (Inv cfg) hstart fun _ _ _ hk hok hs => inv_step hk hok hs
  constructor
  · intro now sinceRx hpc hsilent
    simp only [isSilent, Bool.and_eq_true, decide_eq_true_eq] at hsilent
    exact hinv.dead now (by rw [hpc]; simp [deciding, hsilent.2])
  · intro now hpc
    have hdead : Dead cfg now st.server.lastRxUs := by
      refine hinv.dead now ?_
      rcases hpc with hpc | hpc
      · rw [hpc]
        rfl
      · rw [hpc]
        rfl
    refine ⟨hdead, fun e he => ?_⟩
    have hle := UInt64.le_iff_toNat_le.mp (hinv.queued e he)
    simp only [Dead] at hdead ⊢
    omega

def oneEdge : Packet := ⟨7, 0, [⟨1, keyDown⟩]⟩

def lateAfterOneEdge : List ThreadAction :=
  [.arrive oneEdge 1000, .receive, .receive, .tick 251001, .replay, .replay]

theorem lateAfterOneEdge_silent :
    ∃ st, Run (threadStep .default) (fun st act => ClockOk st act ∧ InTime .default st act)
        (startThreads true) lateAfterOneEdge st ∧
      st.replay = .loaded 251001 250001 ∧ isSilent .default 250001 st.server.lastRxUs = true ∧
      Dead .default 251001 st.server.lastRxUs := by
  have h₀ : Run (threadStep .default) (fun st act => ClockOk st act ∧ InTime .default st act)
      (startThreads true) [] _ := .start
  have h₁ := h₀.next (ThreadAction.arrive oneEdge 1000) ⟨by decide, trivial⟩ rfl
  have h₂ := h₁.next ThreadAction.receive ⟨trivial, fun _ _ _ _ hd => by cases hd⟩ rfl
  have h₃ := h₂.next ThreadAction.receive ⟨trivial, fun _ _ _ _ hd => by cases hd⟩ rfl
  have h₄ := h₃.next (ThreadAction.tick 251001) ⟨by decide, trivial⟩ rfl
  have h₅ := h₄.next ThreadAction.replay ⟨trivial, fun _ hpc => by cases hpc⟩ rfl
  have hrun := h₅.next ThreadAction.replay ⟨trivial, fun _ hpc => by cases hpc; decide⟩ rfl
  exact ⟨_, hrun, rfl, rfl, (silence_is_real .default true lateAfterOneEdge _ hrun).1 _ _ rfl rfl⟩

def datagramAfterClock : List ThreadAction :=
  [.tick 1000000, .arrive oneEdge 1000005, .receive, .receive, .replay, .replay, .replay, .replay]

/-- The difference wraps around: a stream heard after the clock reading is declared
silent, and its queued edge is about to be discarded. -/
theorem live_stream_declared_silent :
    ∃ st, Run (threadStep .default) ClockOk (startThreads true) datagramAfterClock st ∧
      st.replay = .dropping 1000000 ∧ st.server.lastRxUs = 1000005 ∧
      ¬ Dead .default 1000000 st.server.lastRxUs ∧
      ∃ e ∈ st.server.queue, ¬ Dead .default 1000000 e.rxUs := by
  obtain ⟨st, hrun, hview⟩ := run_of_exec_map (threadStep .default) ClockOk (startThreads true)
    datagramAfterClock (fun st => (st.replay, st.server.lastRxUs, st.server.queue))
    (.dropping 1000000, 1000005, [⟨1150005, 1, 7, 1, 1000005⟩]) (by decide +kernel)
  simp only [Prod.mk.injEq] at hview
  obtain ⟨hpc, hrx, hqueue⟩ := hview
  refine ⟨st, hrun, hpc, hrx, by rw [hrx]; decide, ?_⟩
  rw [hqueue]
  exact ⟨_, List.mem_singleton_self _, by decide⟩

end Cwsd.RemoteKeySilence

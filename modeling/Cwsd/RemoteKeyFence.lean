import Cwsd.RemoteKeyPlayout
import Cwsd.RemoteKeyThreads

namespace Cwsd.RemoteKeyFence

open RemoteKeyProtocol RemoteKeyServer RemoteKeyStream RemoteKeyPlayout RemoteKeyThreads Runs

/-- The edges that were pushed and those that were applied since the last packet that
opened a session. -/
structure Fence where
  sent : List ScheduledEdge
  applied : List ScheduledEdge
  deriving DecidableEq, Repr

def poppedBetween (s s' : Server) : List ScheduledEdge :=
  (poppedEdges s'.log).drop (poppedEdges s.log).length

def noteFence (cfg : Config) (st : Threads) (act : ThreadAction) (g : Fence) : Fence :=
  match act with
  | .receive =>
      match st.rx with
      | .stored pkt t =>
          { sent := ofSession pkt st.server g.sent ++ pushedBetween st.server (enqueue cfg t pkt st.server)
            applied := ofSession pkt st.server g.applied }
      | .waiting | .clocked _ _ => g
  | .replay =>
      match st.replay with
      | .draining now => { g with applied := g.applied ++ poppedBetween st.server (drain cfg now st.server) }
      | _ => g
  | .arrive _ _ | .tick _ => g

def pastExchange : ReplayPc → Option UInt64
  | .checked now | .loaded now _ | .silent now | .dropping now | .guarding now | .draining now => some now
  | .top | .entered _ | .sequencing _ _ => none

def beforeLock : RxPc → Option (Packet × UInt64)
  | .stored pkt t => some (pkt, t)
  | .waiting | .clocked _ _ => none

/-- A packet that leaves a reset pending behind the exchange of a pass brings no edge
that is due in that pass: it was read after the clock of the pass, or the slot lies
after it. -/
def BehindFence (cfg : Config) (st : Threads) : ThreadAction → Prop
  | .receive => ∀ d ∈ beforeLock st.rx, ∀ now ∈ pastExchange st.replay,
      (opensSession d.1 st.server || st.server.resetRequested) = true →
      ∀ e ∈ newEdges d.1 st.server, now < d.2 ∨ now < (timeline (anchored cfg d.2 d.1 st.server)).slot e
  | .arrive _ _ | .tick _ | .replay => True

-- The instance is spelled out: UInt64 is finite, and deciding a statement about one of
-- its values by trying all of them would be found first.
instance (cfg : Config) (st : Threads) (act : ThreadAction) : Decidable (BehindFence cfg st act) :=
  match act with
  | .receive =>
      @Option.decidableForallMem _ _ (fun d =>
        @Option.decidableForallMem _ _ (fun now =>
          inferInstanceAs (Decidable ((opensSession d.1 st.server || st.server.resetRequested) = true →
            ∀ e ∈ newEdges d.1 st.server,
              now < d.2 ∨ now < (timeline (anchored cfg d.2 d.1 st.server)).slot e)))
          (pastExchange st.replay))
        (beforeLock st.rx)
  | .arrive _ _ | .tick _ | .replay => inferInstanceAs (Decidable True)

structure Inv (st : Threads) (g : Fence) : Prop where
  queued : ∀ e ∈ st.server.queue, e ∈ g.sent
  applied : ∀ e ∈ g.applied, e ∈ g.sent
  fence : st.server.resetRequested = true → g.applied = []
  later : st.server.resetRequested = true → ∀ now, pastExchange st.replay = some now →
    ∀ e ∈ st.server.queue, now < e.atUs

variable {cfg : Config} {st st' : Threads} {g : Fence}

theorem pushedBetween_enqueue (t : UInt64) (pkt : Packet) (s : Server) :
    pushedBetween s (enqueue cfg t pkt s) = entries cfg t pkt s := by
  rw [pushedBetween, pushedEdges_enqueue]
  exact List.drop_left

theorem inv_enqueue {pkt : Packet} {t : UInt64} (h : Inv st g) (hpc : st.rx = .stored pkt t)
    (hok : BehindFence cfg st .receive) :
    Inv { st with server := enqueue cfg t pkt st.server, rx := .waiting } (noteFence cfg st .receive g) := by
  have hq := queue_enqueue cfg t pkt st.server
  have hreset := resetRequested_enqueue cfg t pkt st.server
  have hopen : (openSession pkt st.server).queue = ofSession pkt st.server st.server.queue := by
    rw [openSession, ofSession]
    split <;> rfl
  have hsub {xs ys : List ScheduledEdge} (hxy : ∀ e ∈ xs, e ∈ ys) :
      ∀ e ∈ ofSession pkt st.server xs, e ∈ ofSession pkt st.server ys := by
    simp only [ofSession]
    split
    · exact fun e he => he
    · exact hxy
  simp only [noteFence, hpc, pushedBetween_enqueue]
  refine ⟨?_, ?_, ?_, ?_⟩
  · intro e he
    rw [hq, hopen] at he
    exact List.mem_append.mpr ((List.mem_append.mp he).imp_left (hsub h.queued e))
  · intro e he
    exact List.mem_append_left _ (hsub h.applied e he)
  · intro hr
    rw [hreset, Bool.or_eq_true] at hr
    simp only [ofSession]
    split
    · rfl
    · exact h.fence (hr.resolve_left ‹_›)
  · intro hr now hnow e he
    rw [hreset] at hr
    rw [hq, List.mem_append] at he
    rcases he with he | he
    · rw [hopen, ofSession] at he
      split at he
      · cases he
      · rename_i hno
        exact h.later (by simpa [hno] using hr) now hnow e he
    · obtain ⟨x, hx, rfl⟩ := List.mem_map.mp he
      have hat := Timeline.toNat_entry (timeline (anchored cfg t pkt st.server)) t pkt.sessionId x
      rw [UInt64.lt_iff_toNat_lt, hat]
      have hdue : now < t ∨ now < (timeline (anchored cfg t pkt st.server)).slot x :=
        hok (pkt, t) (by rw [hpc]; rfl) now hnow hr x hx
      rw [UInt64.lt_iff_toNat_lt, UInt64.lt_iff_toNat_lt] at hdue
      omega

theorem Inv.phase (h : Inv st g) {s : Server} {pc : ReplayPc}
    (hr : s.resetRequested = true → st.server.resetRequested = true)
    (hq : ∀ e ∈ s.queue, e ∈ st.server.queue)
    (hpc : s.resetRequested = true → ∀ now, pastExchange pc = some now → pastExchange st.replay = some now) :
    Inv { st with server := s, replay := pc } g := by
  refine ⟨fun e he => h.queued e (hq e he), h.applied, fun hreset => h.fence (hr hreset), ?_⟩
  intro hreset now hnow e he
  exact h.later (hr hreset) now (hpc hreset now hnow) e (hq e he)

theorem inv_drain {now : UInt64} (h : Inv st g) (hpc : st.replay = .draining now) (next : Option ScheduledEdge) :
    Inv { st with server := drain cfg now st.server, replay := .sequencing now next }
      { g with applied := g.applied ++ poppedBetween st.server (drain cfg now st.server) } := by
  obtain ⟨out, rest, heq, hout, hstream⟩ := stream_applyDue cfg now st.server st.server.queue
  have hq : (drain cfg now st.server).queue = rest := congrArg Stream.queue hstream
  have hreset : (drain cfg now st.server).resetRequested = st.server.resetRequested :=
    resetRequested_applyDue cfg now _ _
  have hpopped : poppedBetween st.server (drain cfg now st.server) = out := by
    rw [poppedBetween, ← poppedEdges_history (drain cfg now st.server), drain, hstream, (edges_of_pops now out _).2,
      poppedEdges_history]
    exact List.drop_left
  rw [hpopped]
  refine ⟨?_, ?_, ?_, by simp [pastExchange]⟩
  · intro e he
    simp only [hq] at he
    exact h.queued e (by rw [heq]; exact List.mem_append_right out he)
  · intro e he
    rcases List.mem_append.mp he with he | he
    · exact h.applied e he
    · exact h.queued e (by rw [heq]; exact List.mem_append_left rest he)
  · intro hr
    simp only [hreset] at hr
    -- with a reset pending nothing in the queue is due
    have hnone : out = [] := by
      refine List.eq_nil_iff_forall_not_mem.mpr fun e he => ?_
      have hlt := h.later hr now (by rw [hpc]; rfl) e (by rw [heq]; exact List.mem_append_left rest he)
      exact absurd (hout e he) (UInt64.not_le.mpr hlt)
    simp only [h.fence hr, hnone, List.append_nil]

theorem inv_replay (h : Inv st g) (hs : replayStep cfg st = some st') : Inv st' (noteFence cfg st .replay g) := by
  simp only [replayStep] at hs
  split at hs
  · cases hs
  · rename_i now hpc
    cases hs
    have hcleared : (checkReset now (reconnect now st.server)).resetRequested = false := by
      rw [checkReset]
      split
      · rfl
      · exact Bool.eq_false_iff.mpr ‹_›
    simp only [noteFence, hpc]
    exact h.phase (by simp [hcleared]) (queue_of_stream (by simp)) (by simp [hcleared])
  · rename_i now hpc
    cases hs
    simp only [noteFence, hpc]
    exact h.phase id (fun e he => he) fun _ now' hnow => by rw [hpc]; exact hnow
  · rename_i now sinceRx hpc
    cases hs
    simp only [noteFence, hpc]
    refine h.phase id (fun e he => he) fun _ now' hnow => ?_
    rw [hpc]
    split at hnow <;> exact hnow
  · rename_i now hpc
    cases hs
    simp only [noteFence, hpc]
    refine h.phase ?_ (queue_of_stream (by simp)) fun _ now' hnow => by rw [hpc]; exact hnow
    simp only [silenceSafe]
    split <;> exact id
  · rename_i now hpc
    cases hs
    simp only [noteFence, hpc]
    exact h.phase id (by simp [dropStream]) fun _ now' hnow => by rw [hpc]; exact hnow
  · rename_i now hpc
    cases hs
    simp only [noteFence, hpc]
    refine h.phase ?_ (queue_of_stream (by simp)) fun _ now' hnow => by rw [hpc]; exact hnow
    rw [checkWatchdog]
    split <;> exact id
  · rename_i now hpc
    cases hs
    simp only [noteFence, hpc]
    exact inv_drain h hpc _
  · rename_i now next hpc
    cases hs
    simp only [noteFence, hpc]
    refine h.phase ?_ (queue_of_stream (by simp)) (by simp [pastExchange])
    simp only [sequencePtt, pttTail, pttLead]
    repeat' split
    all_goals exact id

theorem inv_step {t t' : Threads × Fence} {act : ThreadAction} (h : Inv t.1 t.2) (hok : BehindFence cfg t.1 act)
    (hs : observed (threadStep cfg) (noteFence cfg) t act = some t') : Inv t'.1 t'.2 := by
  obtain ⟨st, g⟩ := t
  obtain ⟨st', g'⟩ := t'
  obtain ⟨hstep, hnote⟩ := observed_eq_some.mp hs
  simp only at h hok hstep hnote ⊢
  subst hnote
  cases act with
  | arrive pkt t =>
      simp only [threadStep] at hstep
      split at hstep
      · cases hstep
        exact ⟨h.queued, h.applied, h.fence, h.later⟩
      · cases hstep
  | receive =>
      simp only [threadStep, receiveStep] at hstep
      split at hstep
      · cases hstep
      · rename_i pkt t hpc
        cases hstep
        simp only [noteFence, hpc]
        exact ⟨h.queued, h.applied, h.fence, h.later⟩
      · rename_i pkt t hpc
        cases hstep
        exact inv_enqueue h hpc hok
  | tick now =>
      simp only [threadStep] at hstep
      split at hstep
      · cases hstep
        exact ⟨h.queued, h.applied, h.fence, by simp [pastExchange]⟩
      · cases hstep
  | replay => exact inv_replay h hstep

/-- The reset is a clean fence in every interleaving in which no packet slips an edge
that is already due behind the exchange of the reset flag: whatever was applied since
the session was opened was pushed since then, and nothing was applied while the
force_safe of the opening packet was still to come. -/
theorem session_reset_fences (cfg : Config) (present : Bool) (acts : List ThreadAction) (st : Threads) (g : Fence)
    (h : Run (observed (threadStep cfg) (noteFence cfg)) (fun t act => BehindFence cfg t.1 act)
      (startThreads present, ⟨[], []⟩) acts (st, g)) :
    (∀ e ∈ g.applied, e ∈ g.sent) ∧ (st.server.resetRequested = true → g.applied = []) := by
  have hstart : Inv (startThreads present) ⟨[], []⟩ :=
    ⟨by simp [startThreads, start], by simp, fun _ => rfl, by simp [startThreads, pastExchange]⟩
  have hinv := h.invariant (fun t => Inv t.1 t.2) hstart fun _ _ _ hk hok hs => inv_step hk hok hs
  exact ⟨hinv.applied, hinv.fence⟩

def oneEdge : Packet := ⟨7, 0, [⟨1, keyDown⟩]⟩

def openedInPass : List ThreadAction :=
  [.tick 1000, .replay, .arrive oneEdge 1000, .receive, .receive, .replay, .replay, .replay, .replay, .replay,
    .tick 151000, .replay, .replay, .replay, .replay, .replay]

theorem openedInPass_fenced :
    ∃ st g, Run (observed (threadStep .default) (noteFence .default)) (fun t act => BehindFence .default t.1 act)
        (startThreads true, ⟨[], []⟩) openedInPass (st, g) ∧
      g.applied = [⟨151000, keyDown, 7, 1, 1000⟩] ∧ (∀ e ∈ g.applied, e ∈ g.sent) := by
  obtain ⟨⟨st, g⟩, hrun, hview⟩ := run_of_exec_map (observed (threadStep .default) (noteFence .default))
    (fun t act => BehindFence .default t.1 act) (startThreads true, ⟨[], []⟩) openedInPass
    (fun t => t.2.applied) [⟨151000, keyDown, 7, 1, 1000⟩] (by decide +kernel)
  exact ⟨st, g, hrun, hview, (session_reset_fences .default true openedInPass st g hrun).1⟩

def noPlayout : Config := { Config.default with playoutMs := 0 }

/-- Without a playout delay the packet's edge is due in the pass whose exchange it missed. -/
def appliedBeforeReset : List ThreadAction :=
  [.tick 1000, .replay, .arrive oneEdge 1000, .receive, .receive, .replay, .replay, .replay, .replay, .replay]

/-- The key-down is applied while the reset is pending, and the next pass cancels it. -/
theorem appliedBeforeReset_unfenced :
    (∃ st g, Run (observed (threadStep noPlayout) (noteFence noPlayout)) (fun t act => ClockOk t.1 act)
        (startThreads true, ⟨[], []⟩) appliedBeforeReset (st, g) ∧
      st.server.resetRequested = true ∧ g.applied = [⟨1000, keyDown, 7, 1, 1000⟩] ∧ st.server.keyIsDown = true) ∧
    ∃ st g, Run (observed (threadStep noPlayout) (noteFence noPlayout)) (fun t act => ClockOk t.1 act)
        (startThreads true, ⟨[], []⟩) (appliedBeforeReset ++ [.tick 6000, .replay]) (st, g) ∧
      st.server.keyIsDown = false ∧ st.server.log.head? = some (.forceSafe 6000) ∧
      g.applied = [⟨1000, keyDown, 7, 1, 1000⟩] := by
  constructor
  · obtain ⟨⟨st, g⟩, hrun, hview⟩ := run_of_exec_map (observed (threadStep noPlayout) (noteFence noPlayout))
      (fun t act => ClockOk t.1 act) (startThreads true, ⟨[], []⟩) appliedBeforeReset
      (fun t => (t.1.server.resetRequested, t.2.applied, t.1.server.keyIsDown))
      (true, [⟨1000, keyDown, 7, 1, 1000⟩], true) (by decide +kernel)
    simp only [Prod.mk.injEq] at hview
    exact ⟨st, g, hrun, hview⟩
  · obtain ⟨⟨st, g⟩, hrun, hview⟩ := run_of_exec_map (observed (threadStep noPlayout) (noteFence noPlayout))
      (fun t act => ClockOk t.1 act) (startThreads true, ⟨[], []⟩) (appliedBeforeReset ++ [.tick 6000, .replay])
      (fun t => (t.1.server.keyIsDown, t.1.server.log.head?, t.2.applied))
      (false, some (.forceSafe 6000), [⟨1000, keyDown, 7, 1, 1000⟩]) (by decide +kernel)
    simp only [Prod.mk.injEq] at hview
    exact ⟨st, g, hrun, hview⟩

end Cwsd.RemoteKeyFence

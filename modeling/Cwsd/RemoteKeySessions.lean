import Cwsd.RemoteKeyStream
import Cwsd.Runs

namespace Cwsd.RemoteKeySessions

open RemoteKeyProtocol RemoteKeyServer RemoteKeyStream Runs

def SameEdge (a b : ScheduledEdge) : Prop := a.session = b.session ∧ a.tsUs = b.tsUs

def NoRepush (log : List Event) : Prop :=
  ∀ later earlier now e, log = later ++ .popped now e :: earlier →
    ∀ e', .pushed e' ∈ later → ¬ SameEdge e' e

theorem mem_poppedEdges {log : List Event} {e : ScheduledEdge} :
    e ∈ poppedEdges log ↔ ∃ now, .popped now e ∈ log := by
  simp only [poppedEdges, List.mem_reverse, List.mem_filterMap]
  constructor
  · rintro ⟨ev, hmem, heq⟩
    cases ev <;> cases heq
    exact ⟨_, hmem⟩
  · rintro ⟨now, hmem⟩
    exact ⟨_, hmem, rfl⟩

theorem NoRepush.push {log : List Event} (h : NoRepush log) {se : ScheduledEdge}
    (hnew : ∀ e ∈ poppedEdges log, ¬ SameEdge se e) : NoRepush (.pushed se :: log) := by
  intro later earlier now e heq e' hmem
  cases later with
  | nil => cases heq
  | cons d later =>
      obtain ⟨rfl, htail⟩ := List.cons.inj heq
      rcases List.mem_cons.mp hmem with heq' | hmem
      · cases heq'
        refine hnew e (mem_poppedEdges.mpr ⟨now, ?_⟩)
        rw [htail]
        simp
      · exact h later earlier now e htail e' hmem

theorem NoRepush.pops {log : List Event} (h : NoRepush log) (now : UInt64) (out : List ScheduledEdge) :
    NoRepush ((out.map (Event.popped now)).reverse ++ log) := by
  induction out generalizing log with
  | nil => exact h
  | cons se out ih =>
      rw [List.map_cons, List.reverse_cons, List.append_assoc]
      refine ih ?_
      intro later earlier now' e heq e' hmem
      cases later with
      | nil => cases hmem
      | cons d later =>
          obtain ⟨rfl, htail⟩ := List.cons.inj heq
          exact h later earlier now' e htail e' (by simpa using hmem)

theorem NoRepush.of_filter {log : List Event} (h : NoRepush (log.filter isEdgeEvent)) : NoRepush log := by
  intro later earlier now e heq e' hmem
  refine h (later.filter isEdgeEvent) (earlier.filter isEdgeEvent) now e ?_ e' ?_
  · simp [heq, isEdgeEvent, List.filter_cons]
  · exact List.mem_filter.mpr ⟨hmem, rfl⟩

/-- Everything of the current session that is queued or was applied lies below the
high-water mark. -/
structure Inv (s : Server) : Prop where
  queued : ∀ e ∈ s.queue, e.session = s.sessionId ∧ e.tsUs ≤ s.lastEnqueuedSrc
  applied : ∀ e ∈ poppedEdges (stream s).history, e.session = s.sessionId → e.tsUs ≤ s.lastEnqueuedSrc
  once : NoRepush (stream s).history

variable {cfg : Config} {now : UInt64} {s : Server}

theorem inv_pass (h : Inv s) : Inv (replayPass cfg now s) := by
  obtain ⟨out, rest, heq, -, hstream⟩ := stream_pass cfg now s
  have hr := receiver_pass cfg now s
  have hid : (replayPass cfg now s).sessionId = s.sessionId := congrArg Receiver.sessionId hr
  have hmark : (replayPass cfg now s).lastEnqueuedSrc = s.lastEnqueuedSrc := congrArg Receiver.lastEnqueuedSrc hr
  have hq : (replayPass cfg now s).queue = rest := congrArg Stream.queue hstream
  have hkept : ∀ e, e ∈ out ∨ e ∈ rest → e ∈ s.queue := by
    intro e he
    rw [← List.mem_append, ← heq] at he
    split at he
    · cases he
    · exact he
  refine ⟨?_, ?_, ?_⟩
  · intro e he
    rw [hid, hmark]
    exact h.queued e (hkept e (.inr (hq ▸ he)))
  · intro e he hses
    rw [hid] at hses
    rw [hmark]
    rw [hstream, mem_poppedEdges] at he
    obtain ⟨t, he⟩ := he
    rcases List.mem_append.mp he with hout | hold
    · obtain ⟨d, hd, heq'⟩ := List.mem_map.mp (List.mem_reverse.mp hout)
      cases heq'
      exact (h.queued e (hkept e (.inl hd))).2
    · exact h.applied e (mem_poppedEdges.mpr ⟨t, hold⟩) hses
  · rw [hstream]
    exact h.once.pops now out

theorem inv_pushEdge (e : Edge) (h : Inv s) : Inv (pushEdge cfg now s e) := by
  rcases stream_pushEdge cfg now s e with ⟨-, hsame⟩ | ⟨hnew, hmark, se, -, hses, hts, -, hstream⟩
  · rw [hsame]
    exact h
  · have hlt : s.lastEnqueuedSrc ≤ e.tsUs := UInt64.le_of_lt (UInt64.not_le.mp hnew)
    have hid : (pushEdge cfg now s e).sessionId = s.sessionId := by
      simp only [pushEdge, anchor]
      split
      · rfl
      · split <;> rfl
    have hq : (pushEdge cfg now s e).queue = s.queue ++ [se] := congrArg Stream.queue hstream
    refine ⟨?_, ?_, ?_⟩
    · intro d hd
      rw [hid, hmark]
      rw [hq, List.mem_append, List.mem_singleton] at hd
      rcases hd with hd | rfl
      · exact ⟨(h.queued d hd).1, UInt64.le_trans (h.queued d hd).2 hlt⟩
      · exact ⟨hses, by rw [hts]; exact UInt64.le_refl _⟩
    · intro d hd hd'
      rw [hid] at hd'
      rw [hmark]
      rw [hstream] at hd
      exact UInt64.le_trans (h.applied d (by simpa [poppedEdges] using hd) hd') hlt
    · rw [hstream]
      refine h.once.push fun d hd hsame => hnew ?_
      rw [← hts, hsame.2]
      exact h.applied d hd (hsame.1.symm.trans hses)

/-- A session may be opened again only if none of its edges has been applied. -/
def FreshSession (s : Server) : Action → Prop
  | .datagram _ bytes => ∀ pkt ∈ decode (bytes.take maxPacketBytes), opensSession pkt s = true →
      ∀ e ∈ poppedEdges s.log, e.session ≠ pkt.sessionId
  | .pass _ | .plug | .unplug => True

instance (s : Server) (act : Action) : Decidable (FreshSession s act) :=
  match act with
  | .datagram _ bytes =>
      inferInstanceAs (Decidable (∀ pkt ∈ decode (bytes.take maxPacketBytes), opensSession pkt s = true →
        ∀ e ∈ poppedEdges s.log, e.session ≠ pkt.sessionId))
  | .pass _ | .plug | .unplug => inferInstanceAs (Decidable True)

theorem inv_openSession {pkt : Packet} (h : Inv s)
    (hfresh : opensSession pkt s = true → ∀ e ∈ poppedEdges s.log, e.session ≠ pkt.sessionId) :
    Inv (openSession pkt s) := by
  by_cases hopen : opensSession pkt s = true
  · rw [openSession, if_pos hopen]
    refine ⟨by simp, ?_, h.once⟩
    intro e he hses
    refine absurd hses (hfresh hopen e ?_)
    rw [← poppedEdges_history]
    exact he
  · rw [openSession, if_neg hopen]
    exact h

theorem inv_step {s' : Server} {act : Action} (h : Inv s) (hok : FreshSession s act)
    (hs : step cfg s act = some s') : Inv s' := by
  cases act with
  | datagram now bytes =>
      cases hs
      simp only [receiveDatagram]
      split
      · exact h
      · rename_i pkt hpkt
        have hfold (edges : List Edge) (s : Server) (h : Inv s) : Inv (edges.foldl (pushEdge cfg now) s) := by
          induction edges generalizing s with
          | nil => exact h
          | cons e edges ih => exact ih _ (inv_pushEdge e h)
        refine hfold pkt.edges _ (inv_openSession ⟨h.queued, h.applied, h.once⟩ ?_)
        exact hok pkt hpkt
  | pass now =>
      cases hs
      exact inv_pass h
  | plug =>
      cases hs
      exact ⟨h.queued, h.applied, h.once⟩
  | unplug =>
      cases hs
      exact ⟨h.queued, h.applied, h.once⟩

/-- Edges are idempotent as long as no session is opened a second time after some
of its edges have been applied: whatever the network duplicates or delays, no
applied edge enters the buffer again. -/
theorem applied_edges_stay_out (cfg : Config) (present : Bool) (acts : List Action) (s : Server)
    (h : Run (step cfg) FreshSession (start present) acts s) :
    ∀ later earlier now e, s.log = later ++ .popped now e :: earlier →
      ∀ e', .pushed e' ∈ later → ¬ (e'.session = e.session ∧ e'.tsUs = e.tsUs) := by
  have hstart : Inv (start present) := ⟨by simp [start], by simp [start, stream, poppedEdges], by
    intro later earlier now e heq
    simp [start, stream] at heq⟩
  have hinv := h.invariant Inv hstart fun _ _ _ hk hok hs => inv_step hk hok hs
  exact hinv.once.of_filter

def keyDownThenUp : List Action :=
  [.datagram 1000 (encode ⟨7, 0, [⟨1, keyDown⟩]⟩), .pass 151000,
    .datagram 152000 (encode ⟨7, 0, [⟨1, keyDown⟩, ⟨60000, 0⟩]⟩)]

theorem keyDownThenUp_once :
    ∃ s, Run (step .default) FreshSession (start true) keyDownThenUp s ∧
      (poppedEdges s.log).map ScheduledEdge.tsUs = [1] ∧ NoRepush s.log := by
  obtain ⟨s, hrun, hview⟩ := run_of_exec_map (step .default) FreshSession (start true) keyDownThenUp
    (fun s => (poppedEdges s.log).map ScheduledEdge.tsUs) [1] (by decide +kernel)
  exact ⟨s, hrun, hview, applied_edges_stay_out .default true keyDownThenUp s hrun⟩

/-- The packet that opened the session comes a second time, after its edge was applied. -/
def duplicatedReset : List Action :=
  [.datagram 1000 (encode ⟨7, flagSessionReset, [⟨1, keyDown⟩]⟩), .pass 151000,
    .datagram 152000 (encode ⟨7, flagSessionReset, [⟨1, keyDown⟩]⟩)]

theorem duplicatedReset_pushes_again :
    ∃ s, Run (step .default) (fun _ _ => True) (start true) duplicatedReset s ∧
      ∃ later earlier now e e', s.log = later ++ .popped now e :: earlier ∧ .pushed e' ∈ later ∧
        e'.session = e.session ∧ e'.tsUs = e.tsUs := by
  obtain ⟨s, hrun, hview⟩ := run_of_exec_map (step .default) (fun _ _ => True) (start true) duplicatedReset
    (fun s => s.log)
    [.pushed ⟨302000, keyDown, 7, 1, 152000⟩, .setKey 151000 true, .setPtt 151000 true,
      .popped 151000 ⟨151000, keyDown, 7, 1, 1000⟩, .forceSafe 151000, .setPtt 151000 false,
      .setKey 151000 false, .pushed ⟨151000, keyDown, 7, 1, 1000⟩] (by decide +kernel)
  exact ⟨s, hrun, [_, _, _], _, _, _, _, hview, List.mem_cons_self, rfl, rfl⟩

end Cwsd.RemoteKeySessions

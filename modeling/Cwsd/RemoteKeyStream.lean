import Cwsd.RemoteKeyServer

namespace Cwsd.RemoteKeyStream

open RemoteKeyProtocol RemoteKeyServer

def pushedEdges (log : List Event) : List ScheduledEdge :=
  (log.filterMap fun
    | .pushed e => some e
    | _ => none).reverse

def poppedEdges (log : List Event) : List ScheduledEdge :=
  (log.filterMap fun
    | .popped _ e => some e
    | _ => none).reverse

def isEdgeEvent : Event → Bool
  | .pushed _ | .popped _ _ => true
  | _ => false

/-- The jitter buffer with the history of its edges, newest first. -/
structure Stream where
  queue : List ScheduledEdge
  history : List Event

def stream (s : Server) : Stream := ⟨s.queue, s.log.filter isEdgeEvent⟩

theorem pushedEdges_history (s : Server) : pushedEdges (stream s).history = pushedEdges s.log := by
  rw [stream, pushedEdges, pushedEdges, List.filterMap_filter]
  congr 2
  funext e
  cases e <;> rfl

theorem poppedEdges_history (s : Server) : poppedEdges (stream s).history = poppedEdges s.log := by
  rw [stream, poppedEdges, poppedEdges, List.filterMap_filter]
  congr 2
  funext e
  cases e <;> rfl

theorem queue_of_stream {s t : Server} (h : stream s = stream t) : ∀ e ∈ s.queue, e ∈ t.queue := by
  have hq : s.queue = t.queue := congrArg Stream.queue h
  intro e he
  exact hq ▸ he

theorem edges_of_pops (now : UInt64) (out : List ScheduledEdge) (log : List Event) :
    pushedEdges ((out.map (Event.popped now)).reverse ++ log) = pushedEdges log ∧
      poppedEdges ((out.map (Event.popped now)).reverse ++ log) = poppedEdges log ++ out := by
  constructor
  · simp [pushedEdges, List.filterMap_append, ← List.map_reverse, List.filterMap_map]
  · simp [poppedEdges, List.filterMap_append, ← List.map_reverse, List.filterMap_map]

section

variable (cfg : Config) (now : UInt64) (s : Server)

@[simp] theorem stream_reconnect : stream (reconnect now s) = stream s := by
  simp only [reconnect]
  split <;> rfl

@[simp] theorem stream_checkReset : stream (checkReset now s) = stream s := by
  simp only [checkReset]
  split <;> rfl

@[simp] theorem stream_silenceSafe : stream (silenceSafe now s) = stream s := by
  simp only [silenceSafe]
  split <;> rfl

theorem stream_dropStream : stream (dropStream s) = { stream s with queue := [] } := rfl

@[simp] theorem stream_checkWatchdog : stream (checkWatchdog cfg now s) = stream s := by
  simp only [checkWatchdog]
  split <;> rfl

theorem stream_applyEdge (se : ScheduledEdge) :
    stream (applyEdge cfg now se s) =
      { stream s with history := .popped now se :: (stream s).history } := by
  have hpop : stream (emit (.popped now se) s) =
      { stream s with history := .popped now se :: (stream s).history } := rfl
  have hptt (down : Bool) (s : Server) : stream (pttForEdge now down s) = stream s := by
    simp only [pttForEdge]
    split <;> rfl
  have hkey (down : Bool) (s : Server) : stream (keyForEdge cfg now down s) = stream s := by
    simp only [keyForEdge]
    split
    · rfl
    · split <;> rfl
  rw [applyEdge, hkey, hptt, hpop]

theorem stream_applyDue (due : List ScheduledEdge) :
    ∃ out rest, due = out ++ rest ∧ (∀ e ∈ out, e.atUs ≤ now) ∧
      stream (applyDue cfg now due s) =
        ⟨rest, (out.map (Event.popped now)).reverse ++ (stream s).history⟩ := by
  induction due generalizing s with
  | nil => exact ⟨[], [], rfl, by simp, by simp [applyDue, stream]⟩
  | cons se due ih =>
      simp only [applyDue]
      split
      · rename_i hdue
        obtain ⟨out, rest, heq, hout, hs⟩ := ih (applyEdge cfg now se s)
        refine ⟨se :: out, rest, by rw [heq]; rfl, by simpa using ⟨hdue, hout⟩, ?_⟩
        rw [hs, stream_applyEdge]
        simp
      · exact ⟨[], se :: due, rfl, by simp, by simp [stream]⟩

@[simp] theorem stream_sequencePtt (next : Option ScheduledEdge) :
    stream (sequencePtt cfg now next s) = stream s := by
  have hlead : stream (pttLead cfg now next s) = stream s := by
    simp only [pttLead]
    split
    · rfl
    · split <;> rfl
  rw [sequencePtt, ← hlead]
  simp only [pttTail]
  split <;> rfl

/-- What a pass does to the jitter buffer: a silent stream is dropped, and of what
is kept the edges that are due leave at the front. -/
theorem stream_pass :
    ∃ out rest, (if isSilent cfg (now - s.lastRxUs) s.lastRxUs then [] else s.queue) = out ++ rest ∧
      (∀ e ∈ out, e.atUs ≤ now) ∧
      stream (replayPass cfg now s) = ⟨rest, (out.map (Event.popped now)).reverse ++ (stream s).history⟩ := by
  have hbefore : stream (checkReset now (reconnect now { s with clockUs := now })) = stream s := by
    rw [stream_checkReset, stream_reconnect]
    rfl
  have hchecks : stream (checks cfg now { s with clockUs := now }) =
      { stream s with
        queue := if isSilent cfg (now - s.lastRxUs) s.lastRxUs then [] else s.queue } := by
    rw [checks, stream_checkWatchdog, checkSilence, lastRxUs_checkReset]
    split
    · rw [stream_dropStream, stream_silenceSafe, hbefore]
    · rw [hbefore]
      rfl
  obtain ⟨out, rest, heq, hout, hs⟩ := stream_applyDue cfg now (checks cfg now { s with clockUs := now })
    (checks cfg now { s with clockUs := now }).queue
  refine ⟨out, rest, ?_, hout, ?_⟩
  · rw [← heq]
    exact (congrArg Stream.queue hchecks).symm
  · rw [replayPass, stream_sequencePtt, drain, hs, hchecks]

theorem stream_pushEdge (e : Edge) :
    e.tsUs ≤ s.lastEnqueuedSrc ∧ pushEdge cfg now s e = s ∨
      ¬ e.tsUs ≤ s.lastEnqueuedSrc ∧ (pushEdge cfg now s e).lastEnqueuedSrc = e.tsUs ∧
        ∃ se : ScheduledEdge, se.state = e.state ∧ se.session = s.sessionId ∧ se.tsUs = e.tsUs ∧
          se.rxUs = now ∧ stream (pushEdge cfg now s e) =
            ⟨s.queue ++ [se], .pushed se :: (stream s).history⟩ := by
  by_cases hle : e.tsUs ≤ s.lastEnqueuedSrc
  · exact .inl ⟨hle, by rw [pushEdge, if_pos hle]⟩
  · have hanchor : stream (anchor cfg now e s) = stream s ∧ (anchor cfg now e s).sessionId = s.sessionId := by
      simp only [anchor]
      split <;> exact ⟨rfl, rfl⟩
    refine .inr ⟨hle, by rw [pushEdge, if_neg hle]; rfl,
      { atUs := schedule now e { anchor cfg now e s with lastEnqueuedSrc := e.tsUs }, state := e.state
        session := s.sessionId, tsUs := e.tsUs, rxUs := now }, rfl, rfl, rfl, rfl, ?_⟩
    rw [pushEdge, if_neg hle, ← hanchor.2, ← hanchor.1]
    have hq : (anchor cfg now e s).queue = s.queue := congrArg Stream.queue hanchor.1
    simp [stream, emit, isEdgeEvent, hq, List.filter_cons]

end

end Cwsd.RemoteKeyStream

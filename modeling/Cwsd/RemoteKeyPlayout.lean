import Cwsd.RemoteKeyKeying

namespace Cwsd.RemoteKeyPlayout

open RemoteKeyProtocol RemoteKeyServer RemoteKeyStream RemoteKeyKeying HighWater

/-- An anchor: a time of the operator and the local time it is played out at. -/
structure Timeline where
  srcUs : UInt64
  localUs : UInt64
  deriving DecidableEq, Repr

def timeline (s : Server) : Timeline := ⟨s.anchorSrcUs, s.anchorLocalUs⟩

namespace Timeline

def slot (l : Timeline) (e : Edge) : UInt64 := l.localUs + (e.tsUs - l.srcUs)

def entry (l : Timeline) (now : UInt64) (session : UInt16) (e : Edge) : ScheduledEdge :=
  { atUs := if l.slot e < now then now else l.slot e
    state := e.state, session := session, tsUs := e.tsUs, rxUs := now }

/-- The slot of the edge lies within 64 bits. -/
def Fits (l : Timeline) (e : Edge) : Prop := l.localUs.toNat + (e.tsUs.toNat - l.srcUs.toNat) < 2 ^ 64

instance (l : Timeline) (e : Edge) : Decidable (l.Fits e) := inferInstanceAs (Decidable (_ < _))

theorem toNat_slot {l : Timeline} {e : Edge} (hle : l.srcUs ≤ e.tsUs) (h : l.Fits e) :
    (l.slot e).toNat = l.localUs.toNat + (e.tsUs.toNat - l.srcUs.toNat) := by
  rw [slot, UInt64.toNat_add, UInt64.toNat_sub_of_le _ _ hle, Nat.mod_eq_of_lt h]

theorem toNat_entry (l : Timeline) (now : UInt64) (session : UInt16) (e : Edge) :
    (l.entry now session e).atUs.toNat = max now.toNat (l.slot e).toNat := by
  simp only [entry]
  split
  · rename_i hlt
    rw [UInt64.lt_iff_toNat_lt] at hlt
    omega
  · rename_i hlt
    rw [UInt64.lt_iff_toNat_lt] at hlt
    omega

end Timeline

/-- The edges of a packet that pass the test against the high-water mark. -/
def newEdges (pkt : Packet) (s : Server) : List Edge :=
  above tsNat (openSession pkt s).lastEnqueuedSrc.toNat pkt.edges

/-- The state in which the new edges of a packet are scheduled. -/
def anchored (cfg : Config) (now : UInt64) (pkt : Packet) (s : Server) : Server :=
  match newEdges pkt s with
  | [] => openSession pkt s
  | e :: _ => anchor cfg now e (openSession pkt s)

def entries (cfg : Config) (now : UInt64) (pkt : Packet) (s : Server) : List ScheduledEdge :=
  (newEdges pkt s).map ((timeline (anchored cfg now pkt s)).entry now pkt.sessionId)

/-- The edges pushed between two states. -/
def pushedBetween (s s' : Server) : List ScheduledEdge :=
  (pushedEdges s'.log).drop (pushedEdges s.log).length

def ofSession (pkt : Packet) (s : Server) (sent : List ScheduledEdge) : List ScheduledEdge :=
  if opensSession pkt s then [] else sent

def accept (s : Server) (se : ScheduledEdge) : Server :=
  emit (.pushed se) { s with lastEnqueuedSrc := se.tsUs, queue := s.queue ++ [se] }

section

variable (cfg : Config) (now : UInt64) (pkt : Packet) (s : Server)

theorem sessionId_openSession : (openSession pkt s).sessionId = pkt.sessionId := by
  rw [openSession]
  split
  · rfl
  · rename_i h
    simp only [opensSession, Bool.or_eq_true, bne_iff_ne, not_or, not_not] at h
    exact h.1.2.symm

theorem pushEdge_of_anchor (e : Edge) (h : s.haveAnchor = true) :
    pushEdge cfg now s e =
      if tsNat e ≤ s.lastEnqueuedSrc.toNat then s else accept s ((timeline s).entry now s.sessionId e) := by
  rw [pushEdge, anchor, if_pos h]
  simp only [tsNat, ← UInt64.le_iff_toNat_le]
  rfl

theorem foldl_of_anchor (edges : List Edge) (s : Server) (h : s.haveAnchor = true) :
    edges.foldl (pushEdge cfg now) s =
      ((above tsNat s.lastEnqueuedSrc.toNat edges).map ((timeline s).entry now s.sessionId)).foldl accept s := by
  induction edges generalizing s with
  | nil => rfl
  | cons e edges ih =>
      rw [List.foldl_cons, pushEdge_of_anchor cfg now s e h, above]
      split
      · exact ih s h
      · exact ih _ h

theorem pushEdge_anchor (e : Edge) (h : ¬ tsNat e ≤ s.lastEnqueuedSrc.toNat) :
    pushEdge cfg now s e = pushEdge cfg now (anchor cfg now e s) e := by
  have hidem : anchor cfg now e (anchor cfg now e s) = anchor cfg now e s := by
    simp only [anchor]
    split
    · simp [*]
    · simp
  have hmark : (anchor cfg now e s).lastEnqueuedSrc = s.lastEnqueuedSrc := by
    simp only [anchor]
    split <;> rfl
  have hnew : ¬ e.tsUs ≤ s.lastEnqueuedSrc := fun hle => h (UInt64.le_iff_toNat_le.mp hle)
  rw [pushEdge, if_neg hnew, pushEdge, hmark, if_neg hnew, hidem]

/-- The loop over the edges: the first new edge sets a missing anchor, and each new
edge is pushed at the time that the anchor gives it. -/
theorem enqueue_eq : enqueue cfg now pkt s = (entries cfg now pkt s).foldl accept (anchored cfg now pkt s) := by
  have hfold (edges : List Edge) (s : Server) : edges.foldl (pushEdge cfg now) s =
      match above tsNat s.lastEnqueuedSrc.toNat edges with
      | [] => s
      | e :: new =>
          ((e :: new).map ((timeline (anchor cfg now e s)).entry now s.sessionId)).foldl accept
            (anchor cfg now e s) := by
    induction edges with
    | nil => rfl
    | cons e edges ih =>
        by_cases hle : tsNat e ≤ s.lastEnqueuedSrc.toNat
        · have hstale : pushEdge cfg now s e = s := by rw [pushEdge, if_pos (UInt64.le_iff_toNat_le.mpr hle)]
          simp only [List.foldl_cons, hstale, above, hle, if_true]
          exact ih
        · have hanchor : (anchor cfg now e s).haveAnchor = true ∧
              (anchor cfg now e s).lastEnqueuedSrc = s.lastEnqueuedSrc ∧
              (anchor cfg now e s).sessionId = s.sessionId := by
            simp only [anchor]
            split
            · exact ⟨‹_›, rfl, rfl⟩
            · exact ⟨rfl, rfl, rfl⟩
          obtain ⟨hhave, hmark, hid⟩ := hanchor
          rw [List.foldl_cons, pushEdge_anchor cfg now s e hle, ← List.foldl_cons,
            foldl_of_anchor cfg now _ _ hhave, hmark, hid]
          simp only [above, hle, if_false]
  have h := hfold pkt.edges (openSession pkt s)
  rw [sessionId_openSession] at h
  rw [enqueue, h, entries, anchored, newEdges]
  split <;> simp [*]

theorem foldl_accept (es : List ScheduledEdge) (s : Server) :
    es.foldl accept s =
      { s with
        queue := s.queue ++ es, lastEnqueuedSrc := (es.getLast?.map (·.tsUs)).getD s.lastEnqueuedSrc
        log := (es.map Event.pushed).reverse ++ s.log } := by
  induction es generalizing s with
  | nil => simp
  | cons se es ih =>
      rw [List.foldl_cons, ih]
      have hlast : (es.getLast?.map (·.tsUs)).getD se.tsUs =
          ((se :: es).getLast?.map (·.tsUs)).getD s.lastEnqueuedSrc := by
        rw [List.getLast?_cons]
        cases es.getLast? <;> rfl
      simp [accept, emit, hlast]

theorem stream_anchored : stream (anchored cfg now pkt s) = stream (openSession pkt s) := by
  rw [anchored]
  split
  · rfl
  · simp only [anchor]
    split <;> rfl

theorem queue_enqueue : (enqueue cfg now pkt s).queue = (openSession pkt s).queue ++ entries cfg now pkt s := by
  rw [enqueue_eq, foldl_accept]
  exact congrArg (·.queue ++ entries cfg now pkt s) (stream_anchored cfg now pkt s)

theorem log_enqueue :
    (enqueue cfg now pkt s).log = ((entries cfg now pkt s).map Event.pushed).reverse ++ s.log := by
  have hlog : (anchored cfg now pkt s).log = s.log := by
    simp only [anchored, anchor, openSession]
    split
    · split <;> rfl
    · split
      · split <;> rfl
      · split <;> rfl
  rw [enqueue_eq, foldl_accept, hlog]

theorem log_handlePacket : (handlePacket cfg now pkt s).log =
    ((entries cfg now pkt (storeRx now { s with clockUs := now })).map Event.pushed).reverse ++ s.log := by
  rw [handlePacket, log_enqueue]
  rfl

theorem resetRequested_enqueue :
    (enqueue cfg now pkt s).resetRequested = (opensSession pkt s || s.resetRequested) := by
  have hopen : (openSession pkt s).resetRequested = (opensSession pkt s || s.resetRequested) := by
    rw [openSession]
    split <;> simp [*]
  rw [enqueue_eq, foldl_accept, ← hopen]
  simp only [anchored, anchor]
  split
  · rfl
  · split <;> rfl

theorem pushedEdges_enqueue :
    pushedEdges (enqueue cfg now pkt s).log = pushedEdges s.log ++ entries cfg now pkt s := by
  rw [log_enqueue]
  simp [pushedEdges, List.filterMap_append, ← List.map_reverse, List.filterMap_map]

theorem lastEnqueuedSrc_anchored :
    (anchored cfg now pkt s).lastEnqueuedSrc = (openSession pkt s).lastEnqueuedSrc := by
  rw [anchored]
  split
  · rfl
  · simp only [anchor]
    split <;> rfl

theorem haveAnchor_anchored :
    (anchored cfg now pkt s).haveAnchor = ((openSession pkt s).haveAnchor || !(newEdges pkt s).isEmpty) := by
  rw [anchored]
  split
  · simp [*]
  · simp only [anchor]
    split <;> simp [*]

theorem timeline_anchored :
    timeline (anchored cfg now pkt s) =
      if (openSession pkt s).haveAnchor then timeline (openSession pkt s)
      else ((newEdges pkt s).head?.map fun e => ⟨e.tsUs, now + us cfg.playoutMs⟩).getD
        (timeline (openSession pkt s)) := by
  rw [anchored]
  split
  · simp [*]
  · simp only [anchor, *]
    split <;> rfl

theorem newEdges_sorted :
    (∀ e ∈ newEdges pkt s, (openSession pkt s).lastEnqueuedSrc.toNat < tsNat e ∧ e ∈ pkt.edges) ∧
      (newEdges pkt s).Pairwise fun a b => tsNat a < tsNat b :=
  above_sorted _ _

theorem timeline_enqueue : timeline (enqueue cfg now pkt s) = timeline (anchored cfg now pkt s) := by
  rw [enqueue_eq, foldl_accept]
  rfl

theorem haveAnchor_enqueue : (enqueue cfg now pkt s).haveAnchor = (anchored cfg now pkt s).haveAnchor := by
  rw [enqueue_eq, foldl_accept]

theorem session_enqueue : (enqueue cfg now pkt s).sessionId = (openSession pkt s).sessionId ∧
    (enqueue cfg now pkt s).haveSession = (openSession pkt s).haveSession ∧
    (enqueue cfg now pkt s).clockUs = s.clockUs := by
  have hopen : (openSession pkt s).clockUs = s.clockUs := by
    rw [openSession]
    split <;> rfl
  rw [enqueue_eq, foldl_accept]
  simp only [anchored, anchor]
  split
  · exact ⟨rfl, rfl, hopen⟩
  · split <;> exact ⟨rfl, rfl, hopen⟩

theorem lastEnqueuedSrc_enqueue : (enqueue cfg now pkt s).lastEnqueuedSrc =
    ((newEdges pkt s).getLast?.map (·.tsUs)).getD (openSession pkt s).lastEnqueuedSrc := by
  rw [enqueue_eq, foldl_accept]
  simp only [entries, List.getLast?_map, Option.map_map, lastEnqueuedSrc_anchored]
  rfl

theorem le_mark_enqueue :
    (openSession pkt s).lastEnqueuedSrc.toNat ≤ (enqueue cfg now pkt s).lastEnqueuedSrc.toNat ∧
      ∀ e ∈ newEdges pkt s, tsNat e ≤ (enqueue cfg now pkt s).lastEnqueuedSrc.toNat := by
  obtain ⟨hnew, hsorted⟩ := newEdges_sorted pkt s
  have htop := key_le_top hsorted
  rw [lastEnqueuedSrc_enqueue]
  cases hlast : (newEdges pkt s).getLast? with
  | none =>
      rw [List.getLast?_eq_none_iff.mp hlast]
      exact ⟨Nat.le_refl _, by simp⟩
  | some e =>
      rw [top, hlast] at htop
      exact ⟨Nat.le_of_lt (hnew e (List.mem_of_getLast? hlast)).1, htop⟩

theorem newEdges_rx : newEdges pkt (storeRx now { s with clockUs := now }) = newEdges pkt s := by
  have hopens : opensSession pkt (storeRx now { s with clockUs := now }) = opensSession pkt s := rfl
  simp only [newEdges, openSession, hopens]
  split <;> rfl

theorem timeline_anchored_rx : timeline (anchored cfg now pkt (storeRx now { s with clockUs := now })) =
    timeline (anchored cfg now pkt s) := by
  have hopens : opensSession pkt (storeRx now { s with clockUs := now }) = opensSession pkt s := rfl
  simp only [timeline_anchored, newEdges_rx, openSession, hopens]
  split <;> rfl

theorem entries_rx : entries cfg now pkt (storeRx now { s with clockUs := now }) = entries cfg now pkt s := by
  rw [entries, newEdges_rx, timeline_anchored_rx, entries]

theorem pushedBetween_handlePacket :
    pushedBetween s (handlePacket cfg now pkt s) = entries cfg now pkt s := by
  have hpushed := pushedEdges_enqueue cfg now pkt (storeRx now { s with clockUs := now })
  rw [entries_rx] at hpushed
  rw [pushedBetween, handlePacket, hpushed]
  exact List.drop_left

theorem timeline_pass : timeline (replayPass cfg now s) = timeline s :=
  congrArg (fun r : Receiver => Timeline.mk r.anchorSrcUs r.anchorLocalUs) (receiver_pass cfg now s)

theorem haveAnchor_pass : (replayPass cfg now s).haveAnchor =
    (s.haveAnchor && !isSilent cfg (now - s.lastRxUs) s.lastRxUs) := by
  have hreset : (checkReset now (reconnect now { s with clockUs := now })).haveAnchor = s.haveAnchor := by
    simp only [checkReset, reconnect]
    split
    · split <;> rfl
    · split <;> rfl
  have hsilence (t : Server) : (checkWatchdog cfg now t).haveAnchor = t.haveAnchor := by
    simp only [checkWatchdog]
    split <;> rfl
  have hedge (t : Server) (se : ScheduledEdge) : (applyEdge cfg now se t).haveAnchor = t.haveAnchor := by
    simp only [applyEdge, keyForEdge, pttForEdge]
    repeat' split
    all_goals rfl
  have hdue (due : List ScheduledEdge) (t : Server) : (applyDue cfg now due t).haveAnchor = t.haveAnchor := by
    induction due generalizing t with
    | nil => rfl
    | cons se due ih =>
        simp only [applyDue]
        split
        · rw [ih, hedge]
        · rfl
  have hptt (next : Option ScheduledEdge) (t : Server) : (sequencePtt cfg now next t).haveAnchor = t.haveAnchor := by
    simp only [sequencePtt, pttTail, pttLead]
    repeat' split
    all_goals rfl
  rw [replayPass, hptt, drain, hdue, checks, hsilence, checkSilence, lastRxUs_checkReset]
  split
  · simp [dropStream, *]
  · simp [*]

end

/-- The anchor was taken from an edge that the high-water mark has passed. -/
def AnchorBelow (s : Server) : Prop := s.haveAnchor = true → s.anchorSrcUs ≤ s.lastEnqueuedSrc

section

variable (cfg : Config) (now : UInt64) (pkt : Packet) {s : Server}

theorem anchorBelow_openSession (h : AnchorBelow s) : AnchorBelow (openSession pkt s) := by
  rw [openSession]
  split
  · intro hno
    cases hno
  · exact h

/-- No unsigned difference of the loop underflows. -/
theorem src_le_of_new (h : AnchorBelow s) :
    ∀ e ∈ newEdges pkt s, (timeline (anchored cfg now pkt s)).srcUs ≤ e.tsUs := by
  intro e he
  obtain ⟨hmem, hsorted⟩ := newEdges_sorted pkt s
  rw [timeline_anchored, UInt64.le_iff_toNat_le]
  split
  · rename_i hanchor
    have hsrc := UInt64.le_iff_toNat_le.mp (anchorBelow_openSession pkt h hanchor)
    exact Nat.le_trans hsrc (Nat.le_of_lt (hmem e he).1)
  · cases hnew : newEdges pkt s with
    | nil =>
        rw [hnew] at he
        cases he
    | cons first rest =>
        rw [hnew] at he hsorted
        rcases List.mem_cons.mp he with rfl | he
        · exact Nat.le_refl _
        · exact Nat.le_of_lt (List.rel_of_pairwise_cons hsorted he)

theorem anchorBelow_enqueue (h : AnchorBelow s) : AnchorBelow (enqueue cfg now pkt s) := by
  intro hanchor
  have hsrc : (enqueue cfg now pkt s).anchorSrcUs = (timeline (anchored cfg now pkt s)).srcUs :=
    congrArg Timeline.srcUs (timeline_enqueue cfg now pkt s)
  rw [haveAnchor_enqueue] at hanchor
  rw [hsrc, lastEnqueuedSrc_enqueue]
  cases hlast : (newEdges pkt s).getLast? with
  | none =>
      have hnil : newEdges pkt s = [] := List.getLast?_eq_none_iff.mp hlast
      simp only [anchored, hnil] at hanchor ⊢
      exact anchorBelow_openSession pkt h hanchor
  | some e => exact src_le_of_new cfg now pkt h e (List.mem_of_getLast? hlast)

theorem anchorBelow_pass (h : AnchorBelow s) : AnchorBelow (replayPass cfg now s) := by
  intro hanchor
  rw [haveAnchor_pass, Bool.and_eq_true] at hanchor
  have hr := receiver_pass cfg now s
  have hsrc : (replayPass cfg now s).anchorSrcUs = s.anchorSrcUs := congrArg Receiver.anchorSrcUs hr
  have hmark : (replayPass cfg now s).lastEnqueuedSrc = s.lastEnqueuedSrc := congrArg Receiver.lastEnqueuedSrc hr
  rw [hsrc, hmark]
  exact h hanchor.1

end

/-- The queue holds the edges of the packet, the first at the playout delay from now
and each later one after it by the difference of their operator times. -/
def TakenWhole (cfg : Config) (now : UInt64) (edges : List Edge) (queue : List ScheduledEdge) : Prop :=
  queue.map (fun se => (se.atUs.toNat, se.state)) = edges.map fun e =>
    (now.toNat + cfg.playoutMs.toNat * 1000 + (tsNat e - (edges.head?.map tsNat).getD 0), e.state)

instance (cfg : Config) (now : UInt64) (edges : List Edge) (queue : List ScheduledEdge) :
    Decidable (TakenWhole cfg now edges queue) := inferInstanceAs (Decidable (_ = _))

/-- The edge that anchors a session lies at the playout delay, and every edge after it
by as much later as the operator made it. -/
theorem toNat_entry_opening {cfg : Config} {now : UInt64} {first e : Edge} (session : UInt16)
    (hle : tsNat first ≤ tsNat e)
    (hsum : now.toNat + cfg.playoutMs.toNat * 1000 + (tsNat e - tsNat first) < 2 ^ 64) :
    ((Timeline.mk first.tsUs (now + us cfg.playoutMs)).entry now session e).atUs.toNat =
      now.toNat + cfg.playoutMs.toNat * 1000 + (tsNat e - tsNat first) := by
  have hlocal : (now + us cfg.playoutMs).toNat = now.toNat + cfg.playoutMs.toNat * 1000 :=
    toNat_add_us (by omega)
  have hfits : (Timeline.mk first.tsUs (now + us cfg.playoutMs)).Fits e := by
    rw [Timeline.Fits, hlocal]
    exact hsum
  have hslot := Timeline.toNat_slot (l := ⟨first.tsUs, now + us cfg.playoutMs⟩) (UInt64.le_iff_toNat_le.mpr hle) hfits
  rw [Timeline.toNat_entry, hslot, hlocal]
  simp only [tsNat]
  omega

section

variable {first : Edge} {edges : List Edge} (hsorted : (first :: edges).Pairwise fun a b => tsNat a < tsNat b)

include hsorted

theorem above_stale_first (hzero : tsNat first = 0) : above tsNat 0 (first :: edges) = edges := by
  obtain ⟨hhead, htail⟩ := List.pairwise_cons.mp hsorted
  have hrest : above tsNat 0 edges = edges := by
    refine (above_new edges htail fun e he => ?_).1
    exact Nat.lt_of_le_of_lt (Nat.zero_le _) (hhead e he)
  simp [above, hzero, hrest]

theorem first_le {e : Edge} (he : e ∈ first :: edges) : tsNat first ≤ tsNat e := by
  rcases List.mem_cons.mp he with rfl | he
  · exact Nat.le_refl _
  · exact Nat.le_of_lt ((List.pairwise_cons.mp hsorted).1 e he)

theorem above_fresh_first (hpos : 0 < tsNat first) : above tsNat 0 (first :: edges) = first :: edges :=
  (above_new (first :: edges) hsorted fun _ he => Nat.lt_of_lt_of_le hpos (first_le hsorted he)).1

end

/-- A packet that opens a session is taken whole, from any state, exactly when its first
timestamp is not the sentinel of the high-water mark. -/
theorem opening_packet_taken_whole_iff (cfg : Config) (now : UInt64) (pkt : Packet) (s : Server)
    (hopen : opensSession pkt s = true) (hsorted : pkt.edges.Pairwise fun a b => a.tsUs < b.tsUs)
    (hsum : ∀ e ∈ pkt.edges, now.toNat + cfg.playoutMs.toNat * 1000 +
      (tsNat e - (pkt.edges.head?.map tsNat).getD 0) < 2 ^ 64) :
    TakenWhole cfg now pkt.edges (handlePacket cfg now pkt s).queue ↔
      ∀ e ∈ pkt.edges.head?, e.tsUs ≠ 0 := by
  have hsorted' : pkt.edges.Pairwise fun a b => tsNat a < tsNat b :=
    hsorted.imp fun hlt => UInt64.lt_iff_toNat_lt.mp hlt
  have hopen' : opensSession pkt (storeRx now { s with clockUs := now }) = true := hopen
  rw [handlePacket]
  generalize storeRx now { s with clockUs := now } = t at hopen'
  rw [queue_enqueue, entries, anchored, newEdges, openSession, if_pos hopen']
  simp only [UInt64.toNat_zero, List.nil_append]
  cases hedges : pkt.edges with
  | nil => simp [TakenWhole, above]
  | cons first edges =>
      rw [hedges] at hsorted' hsum
      simp only [List.head?_cons, Option.mem_some_iff, forall_eq']
      by_cases hzero : first.tsUs = 0
      · -- the first edge is stale from the start, and the queue is one edge short
        have hstale : tsNat first = 0 := UInt64.toNat_inj.mpr hzero
        refine ⟨fun h => ?_, fun h => absurd hzero h⟩
        rw [above_stale_first hsorted' hstale] at h
        have hlen := congrArg List.length h
        simp at hlen
      · have hpos : 0 < tsNat first := Nat.pos_of_ne_zero fun h => hzero (UInt64.toNat_inj.mp h)
        refine ⟨fun _ => hzero, fun _ => ?_⟩
        rw [above_fresh_first hsorted' hpos, TakenWhole, List.map_map]
        apply List.map_congr_left
        intro e he
        simp only [Function.comp_apply, timeline, anchor, Bool.false_eq_true, if_false]
        exact Prod.ext (toNat_entry_opening pkt.sessionId (first_le hsorted' he) (hsum e he)) rfl

theorem dit_taken_whole :
    TakenWhole .default 1000 [⟨1, keyDown⟩, ⟨60001, 0⟩]
      (handlePacket .default 1000 ⟨7, flagSessionReset, [⟨1, keyDown⟩, ⟨60001, 0⟩]⟩ (start true)).queue :=
  (opening_packet_taken_whole_iff .default 1000 ⟨7, flagSessionReset, [⟨1, keyDown⟩, ⟨60001, 0⟩]⟩ (start true)
    (by decide) (by decide) (by decide)).mpr (by decide)

/-- An operator whose first key-down is at the start of the session: it is taken for a
duplicate and only its key-up is queued. -/
theorem first_edge_at_zero_lost :
    decode (encode ⟨7, flagSessionReset, [⟨0, keyDown⟩, ⟨60000, 0⟩]⟩) =
      some ⟨7, flagSessionReset, [⟨0, keyDown⟩, ⟨60000, 0⟩]⟩ ∧
    opensSession ⟨7, flagSessionReset, [⟨0, keyDown⟩, ⟨60000, 0⟩]⟩ (start true) = true ∧
    (receiveDatagram .default 1000 (encode ⟨7, flagSessionReset, [⟨0, keyDown⟩, ⟨60000, 0⟩]⟩) (start true)).queue =
      [⟨151000, 0, 7, 60000, 1000⟩] ∧
    ¬ TakenWhole .default 1000 [⟨0, keyDown⟩, ⟨60000, 0⟩]
      (receiveDatagram .default 1000 (encode ⟨7, flagSessionReset, [⟨0, keyDown⟩, ⟨60000, 0⟩]⟩)
        (start true)).queue := by
  decide +kernel

end Cwsd.RemoteKeyPlayout

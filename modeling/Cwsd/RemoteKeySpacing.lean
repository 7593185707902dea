import Cwsd.RemoteKeyPlayout

namespace Cwsd.RemoteKeySpacing

open RemoteKeyProtocol RemoteKeyServer RemoteKeyStream RemoteKeyKeying RemoteKeyPlayout Runs

section OneAnchor

def noteAnchor (cfg : Config) (s : Server) (act : Action) (sent : List ScheduledEdge) : List ScheduledEdge :=
  match act with
  | .datagram now bytes =>
      match decode (bytes.take maxPacketBytes) with
      | none => sent
      | some pkt => ofSession pkt s sent ++ pushedBetween s (handlePacket cfg now pkt s)
  | .pass now => if isSilent cfg (now - s.lastRxUs) s.lastRxUs then [] else sent
  | .plug | .unplug => sent

/-- Everything pushed under the anchor has the time that the anchor gives it. -/
structure Inv (s : Server) (sent : List ScheduledEdge) : Prop where
  anchor : AnchorBelow s
  none : s.haveAnchor = false → sent = []
  src : ∀ e ∈ sent, s.anchorSrcUs ≤ e.tsUs
  placed : ∀ e ∈ sent, e = (timeline s).entry e.rxUs e.session ⟨e.tsUs, e.state⟩

variable {cfg : Config} {now : UInt64} {pkt : Packet} {s : Server} {sent : List ScheduledEdge}

theorem inv_openSession (h : Inv s sent) : Inv (openSession pkt s) (ofSession pkt s sent) := by
  rw [openSession, ofSession]
  split
  · exact ⟨by simp [AnchorBelow], fun _ => rfl, by simp, by simp⟩
  · exact h

theorem inv_enqueue (h : Inv s sent) :
    Inv (enqueue cfg now pkt s) (ofSession pkt s sent ++ entries cfg now pkt s) := by
  have hopen : Inv (openSession pkt s) (ofSession pkt s sent) := inv_openSession h
  have hsrc := src_le_of_new cfg now pkt h.anchor
  have hline := timeline_enqueue cfg now pkt s
  -- an edge that was pushed before keeps the anchor alive
  have hlive : ∀ e ∈ ofSession pkt s sent, timeline (enqueue cfg now pkt s) = timeline (openSession pkt s) := by
    intro e he
    rw [hline, timeline_anchored, if_pos]
    by_contra hno
    rw [hopen.none (Bool.eq_false_iff.mpr hno)] at he
    cases he
  refine ⟨anchorBelow_enqueue cfg now pkt h.anchor, ?_, ?_, ?_⟩
  · intro hno
    rw [haveAnchor_enqueue, haveAnchor_anchored, Bool.or_eq_false_iff] at hno
    have hnil : newEdges pkt s = [] := by simpa using hno.2
    rw [hopen.none hno.1, entries, hnil]
    rfl
  · intro e he
    rcases List.mem_append.mp he with he | he
    · have heq : (enqueue cfg now pkt s).anchorSrcUs = (openSession pkt s).anchorSrcUs :=
        congrArg Timeline.srcUs (hlive e he)
      rw [heq]
      exact hopen.src e he
    · obtain ⟨x, hx, rfl⟩ := List.mem_map.mp he
      have heq : (enqueue cfg now pkt s).anchorSrcUs = (timeline (anchored cfg now pkt s)).srcUs :=
        congrArg Timeline.srcUs hline
      rw [heq]
      exact hsrc x hx
  · intro e he
    rcases List.mem_append.mp he with he | he
    · rw [hlive e he]
      exact hopen.placed e he
    · obtain ⟨x, hx, rfl⟩ := List.mem_map.mp he
      rw [hline]
      rfl

theorem inv_pass (h : Inv s sent) :
    Inv (replayPass cfg now s) (if isSilent cfg (now - s.lastRxUs) s.lastRxUs then [] else sent) := by
  have hsrc : (replayPass cfg now s).anchorSrcUs = s.anchorSrcUs := congrArg Timeline.srcUs (timeline_pass cfg now s)
  have hanchor := haveAnchor_pass cfg now s
  split
  · exact ⟨anchorBelow_pass cfg now h.anchor, fun _ => rfl, by simp, by simp⟩
  · rename_i hsilent
    refine ⟨anchorBelow_pass cfg now h.anchor, ?_, ?_, ?_⟩
    · intro hno
      rw [hanchor, Bool.and_eq_false_iff] at hno
      exact h.none (hno.resolve_right (by simpa using hsilent))
    · rw [hsrc]
      exact h.src
    · rw [timeline_pass]
      exact h.placed

theorem inv_step {t t' : Server × List ScheduledEdge} {act : Action} (h : Inv t.1 t.2)
    (hs : observed (step cfg) (noteAnchor cfg) t act = some t') : Inv t'.1 t'.2 := by
  obtain ⟨s, sent⟩ := t
  obtain ⟨s', sent'⟩ := t'
  obtain ⟨hstep, hnote⟩ := observed_eq_some.mp hs
  simp only at h hstep hnote ⊢
  subst hnote
  cases act with
  | datagram now bytes =>
      cases hstep
      simp only [receiveDatagram, noteAnchor]
      cases hpkt : decode (bytes.take maxPacketBytes) with
      | none => exact h
      | some pkt =>
          have hheard : Inv (storeRx now { s with clockUs := now }) sent := ⟨h.anchor, h.none, h.src, h.placed⟩
          simp only [pushedBetween_handlePacket, ← entries_rx cfg now pkt s]
          exact inv_enqueue hheard
  | pass now =>
      cases hstep
      exact inv_pass h
  | plug | unplug =>
      cases hstep
      exact ⟨h.anchor, h.none, h.src, h.placed⟩

theorem inv_run {present : Bool} {acts : List Action}
    (h : Run (observed (step cfg) (noteAnchor cfg)) (fun _ _ => True) (start present, []) acts (s, sent)) :
    Inv s sent := by
  have hstart : Inv (start present) [] := ⟨by simp [AnchorBelow, start], fun _ => rfl, by simp, by simp⟩
  exact h.invariant (fun t => Inv t.1 t.2) hstart fun _ _ _ hk _ hs => inv_step hk hs

structure OnTime (l : Timeline) (e : ScheduledEdge) : Prop where
  fits : l.localUs.toNat + (e.tsUs - l.srcUs).toNat ≤ 2 ^ 64 - 1
  notLate : e.rxUs.toNat ≤ l.localUs.toNat + (e.tsUs - l.srcUs).toNat

theorem Inv.constant (h : Inv s sent) {e : ScheduledEdge} (he : e ∈ sent) (hon : OnTime (timeline s) e) :
    s.anchorSrcUs ≤ e.tsUs ∧
      (e.atUs.toNat : Int) - e.tsUs.toNat = s.anchorLocalUs.toNat - s.anchorSrcUs.toNat := by
  have hsrc := h.src e he
  refine ⟨hsrc, ?_⟩
  have hle := UInt64.le_iff_toNat_le.mp hsrc
  have hsub : (e.tsUs - (timeline s).srcUs).toNat = e.tsUs.toNat - s.anchorSrcUs.toNat :=
    UInt64.toNat_sub_of_le _ _ hsrc
  have hfits := hon.fits
  have hlate := hon.notLate
  rw [hsub] at hfits hlate
  have hat : e.atUs.toNat = max e.rxUs.toNat ((timeline s).localUs.toNat + (e.tsUs.toNat - s.anchorSrcUs.toNat)) := by
    have hslot : ((timeline s).slot ⟨e.tsUs, e.state⟩).toNat = _ :=
      Timeline.toNat_slot hsrc (by rw [Timeline.Fits]; simp only [timeline] at hfits ⊢; omega)
    rw [h.placed e he, Timeline.toNat_entry, hslot]
    rfl
  simp only [timeline] at hat hlate
  omega

end OneAnchor

section TwoRuns

def anchors (pkt : Packet) (s : Server) : Bool := !(openSession pkt s).haveAnchor && !(newEdges pkt s).isEmpty

def noteHeard (s : Server) (act : Action) (heard : List (Packet × Option UInt64)) : List (Packet × Option UInt64) :=
  match act with
  | .datagram now bytes =>
      match decode (bytes.take maxPacketBytes) with
      | none => heard
      | some pkt => heard ++ [(pkt, if anchors pkt s then some now else none)]
  | .pass _ | .plug | .unplug => heard

/-- No packet after the one that set the anchor is late, and no pass finds the stream silent. -/
def Steady (cfg : Config) (s : Server) : Action → Prop
  | .datagram now bytes => ∀ pkt ∈ decode (bytes.take maxPacketBytes), anchors pkt s = false →
      ∀ e ∈ newEdges pkt s, now ≤ (timeline (anchored cfg now pkt s)).slot e
  | .pass now => isSilent cfg (now - s.lastRxUs) s.lastRxUs = false
  | .plug | .unplug => True

instance (cfg : Config) (s : Server) (act : Action) : Decidable (Steady cfg s act) :=
  match act with
  | .datagram now bytes =>
      inferInstanceAs (Decidable (∀ pkt ∈ decode (bytes.take maxPacketBytes), anchors pkt s = false →
        ∀ e ∈ newEdges pkt s, now ≤ (timeline (anchored cfg now pkt s)).slot e))
  | .pass now => inferInstanceAs (Decidable (isSilent cfg (now - s.lastRxUs) s.lastRxUs = false))
  | .plug | .unplug => inferInstanceAs (Decidable True)

def schedules (log : List Event) : List (UInt64 × UInt8) := (pushedEdges log).map fun e => (e.atUs, e.state)

/-- What of the receiver decides on the schedule of the next packet, and all schedules so far. -/
structure View where
  haveAnchor : Bool
  line : Timeline
  mark : UInt64
  sessionId : UInt16
  haveSession : Bool
  pushed : List (UInt64 × UInt8)

def view (s : Server) : View :=
  ⟨s.haveAnchor, timeline s, s.lastEnqueuedSrc, s.sessionId, s.haveSession, schedules s.log⟩

variable {cfg : Config} {now now' : UInt64} {pkt : Packet} {r s : Server}

theorem opensSession_of_view (h : view r = view s) : opensSession pkt r = opensSession pkt s := by
  have hid : r.sessionId = s.sessionId := congrArg View.sessionId h
  have hses : r.haveSession = s.haveSession := congrArg View.haveSession h
  rw [opensSession, hid, hses, opensSession]

theorem view_openSession (h : view r = view s) : view (openSession pkt r) = view (openSession pkt s) := by
  rw [openSession, openSession, opensSession_of_view h]
  split
  · have hline : timeline r = timeline s := congrArg View.line h
    have hpushed : schedules r.log = schedules s.log := congrArg View.pushed h
    simp only [view, timeline, Timeline.mk.injEq] at hline ⊢
    simp [hline, hpushed]
  · exact h

theorem newEdges_of_view (h : view r = view s) : newEdges pkt r = newEdges pkt s := by
  have hmark : (openSession pkt r).lastEnqueuedSrc = (openSession pkt s).lastEnqueuedSrc :=
    congrArg View.mark (view_openSession h)
  rw [newEdges, hmark, newEdges]

theorem anchors_of_view (h : view r = view s) : anchors pkt r = anchors pkt s := by
  have hanchor : (openSession pkt r).haveAnchor = (openSession pkt s).haveAnchor :=
    congrArg View.haveAnchor (view_openSession h)
  rw [anchors, hanchor, newEdges_of_view h, anchors]

/-- Packets that do not anchor are scheduled by the anchor in force, whatever their clock. -/
theorem timeline_of_view (h : view r = view s) (hclock : anchors pkt s = true → now = now') :
    timeline (anchored cfg now pkt r) = timeline (anchored cfg now' pkt s) := by
  have hanchor : (openSession pkt r).haveAnchor = (openSession pkt s).haveAnchor :=
    congrArg View.haveAnchor (view_openSession h)
  have hline : timeline (openSession pkt r) = timeline (openSession pkt s) := congrArg View.line (view_openSession h)
  rw [timeline_anchored, timeline_anchored, hanchor, hline, newEdges_of_view h]
  split
  · rfl
  · rename_i hno
    cases hnew : newEdges pkt s with
    | nil => rfl
    | cons e rest => rw [hclock (by simpa [anchors, hnew] using hno)]

theorem entries_of_view (h : view r = view s) (hclock : anchors pkt s = true → now = now')
    (hontime : anchors pkt s = false → ∀ e ∈ newEdges pkt s,
      now ≤ (timeline (anchored cfg now' pkt s)).slot e ∧ now' ≤ (timeline (anchored cfg now' pkt s)).slot e) :
    (entries cfg now pkt r).map (fun e => (e.atUs, e.state)) =
      (entries cfg now' pkt s).map fun e => (e.atUs, e.state) := by
  rw [entries, entries, newEdges_of_view h, timeline_of_view h hclock, List.map_map, List.map_map]
  apply List.map_congr_left
  intro e he
  cases hanchors : anchors pkt s with
  | true => rw [hclock hanchors]
  | false =>
      obtain ⟨hon, hon'⟩ := hontime hanchors e he
      simp only [Function.comp_apply, Timeline.entry, if_neg (UInt64.not_lt.mpr hon), if_neg (UInt64.not_lt.mpr hon')]

theorem view_enqueue (h : view r = view s) (hclock : anchors pkt s = true → now = now')
    (hontime : anchors pkt s = false → ∀ e ∈ newEdges pkt s,
      now ≤ (timeline (anchored cfg now' pkt s)).slot e ∧ now' ≤ (timeline (anchored cfg now' pkt s)).slot e) :
    view (enqueue cfg now pkt r) = view (enqueue cfg now' pkt s) := by
  have hopen : view (openSession pkt r) = view (openSession pkt s) := view_openSession h
  have hanchor : (openSession pkt r).haveAnchor = (openSession pkt s).haveAnchor := congrArg View.haveAnchor hopen
  have hmark : (openSession pkt r).lastEnqueuedSrc = (openSession pkt s).lastEnqueuedSrc :=
    congrArg View.mark hopen
  have hses : (openSession pkt r).haveSession = (openSession pkt s).haveSession := congrArg View.haveSession hopen
  have hid : (openSession pkt r).sessionId = (openSession pkt s).sessionId := congrArg View.sessionId hopen
  have hpushed : schedules r.log = schedules s.log := congrArg View.pushed h
  have hsched (now : UInt64) (t : Server) : schedules (enqueue cfg now pkt t).log =
      schedules t.log ++ (entries cfg now pkt t).map fun e => (e.atUs, e.state) := by
    rw [schedules, pushedEdges_enqueue, List.map_append]
    rfl
  rw [view, view, haveAnchor_enqueue, haveAnchor_enqueue, haveAnchor_anchored, haveAnchor_anchored, hanchor,
    newEdges_of_view h, timeline_enqueue, timeline_enqueue, timeline_of_view h hclock, lastEnqueuedSrc_enqueue,
    lastEnqueuedSrc_enqueue, newEdges_of_view h, hmark, (session_enqueue cfg now pkt r).1,
    (session_enqueue cfg now' pkt s).1, hid, (session_enqueue cfg now pkt r).2.1,
    (session_enqueue cfg now' pkt s).2.1, hses, hsched, hsched, hpushed, entries_of_view h hclock hontime]

theorem view_pass (hsilent : isSilent cfg (now - s.lastRxUs) s.lastRxUs = false) :
    view (replayPass cfg now s) = view s := by
  have hr := receiver_pass cfg now s
  have hmark : (replayPass cfg now s).lastEnqueuedSrc = s.lastEnqueuedSrc := congrArg Receiver.lastEnqueuedSrc hr
  have hid : (replayPass cfg now s).sessionId = s.sessionId := congrArg Receiver.sessionId hr
  have hses : (replayPass cfg now s).haveSession = s.haveSession := congrArg Receiver.haveSession hr
  have hpushed : pushedEdges (replayPass cfg now s).log = pushedEdges s.log := by
    obtain ⟨out, rest, -, -, hstream⟩ := stream_pass cfg now s
    rw [← pushedEdges_history, hstream, (edges_of_pops now out _).1, pushedEdges_history]
  rw [view, haveAnchor_pass, hsilent, timeline_pass, hmark, hid, hses, schedules, hpushed]
  simp [view, schedules]

/-- A receiver that gets the packets and, for those that set an anchor, their clocks. -/
def feed (cfg : Config) (t : Server × List UInt64) (pkt : Packet) : Server × List UInt64 :=
  if anchors pkt t.1 then
    match t.2 with
    | [] => t
    | now :: rest => (enqueue cfg now pkt t.1, rest)
  else (enqueue cfg 0 pkt t.1, t.2)

theorem feed_heard (h : view r = view s) (rest : List UInt64)
    (hon : anchors pkt s = false → ∀ e ∈ newEdges pkt s, now ≤ (timeline (anchored cfg now pkt s)).slot e) :
    ∃ r', feed cfg (r, (if anchors pkt s then some now else none).toList ++ rest) pkt = (r', rest) ∧
      view r' = view (handlePacket cfg now pkt s) := by
  have hhandled : view (handlePacket cfg now pkt s) = view (enqueue cfg now pkt s) :=
    view_enqueue rfl (fun _ => rfl) fun hno e he => ⟨hon hno e he, hon hno e he⟩
  rw [feed, anchors_of_view h, hhandled]
  cases hanchors : anchors pkt s with
  | true => exact ⟨_, rfl, view_enqueue h (fun _ => rfl) fun hno => absurd hno (by simp [hanchors])⟩
  | false =>
      refine ⟨_, rfl, view_enqueue h (fun hyes => absurd hyes (by simp [hanchors])) fun hno e he => ?_⟩
      exact ⟨UInt64.zero_le, hon hno e he⟩

theorem steady_run_fed {present : Bool} {acts : List Action} {t : Server × List (Packet × Option UInt64)}
    (h : Run (observed (step cfg) noteHeard) (fun t act => Steady cfg t.1 act) (start present, []) acts t) :
    ∀ rest, ∃ r, (t.2.map Prod.fst).foldl (feed cfg) (start true, t.2.filterMap Prod.snd ++ rest) = (r, rest) ∧
      view r = view t.1 := by
  induction h with
  | start => exact fun rest => ⟨start true, rfl, rfl⟩
  | @next as t a t' hrun hok hs ih =>
      obtain ⟨s, heard⟩ := t
      obtain ⟨s', heard'⟩ := t'
      obtain ⟨hstep, hnote⟩ := observed_eq_some.mp hs
      simp only at hok hstep hnote ih ⊢
      subst hnote
      cases a with
      | datagram now bytes =>
          cases hstep
          simp only [receiveDatagram, noteHeard]
          cases hpkt : decode (bytes.take maxPacketBytes) with
          | none => exact ih
          | some pkt =>
              intro rest
              obtain ⟨r, hfold, hview⟩ := ih ((if anchors pkt s then some now else none).toList ++ rest)
              obtain ⟨r', hfeed, hview'⟩ := feed_heard hview rest (hok pkt hpkt)
              refine ⟨r', ?_, hview'⟩
              have hclock : [(pkt, if anchors pkt s then some now else none)].filterMap Prod.snd =
                  (if anchors pkt s then some now else none).toList := by
                cases anchors pkt s <;> rfl
              rw [List.map_append, List.filterMap_append, hclock, List.append_assoc, List.foldl_append, hfold]
              exact hfeed
      | pass now =>
          cases hstep
          intro rest
          obtain ⟨r, hfold, hview⟩ := ih rest
          exact ⟨r, hfold, hview.trans (view_pass hok).symm⟩
      | plug | unplug =>
          cases hstep
          exact ih

end TwoRuns

/-- Spacing is reproduced: under one anchor the operator's times are shifted by one
constant, and two steady runs with the same packets and the same clocks at the
anchoring ones push the same schedule, whenever the other packets came. -/
theorem spacing_independent_of_jitter (cfg : Config) :
    (∀ present acts s sent,
      Run (observed (step cfg) (noteAnchor cfg)) (fun _ _ => True) (start present, []) acts (s, sent) →
        ∀ e ∈ sent, OnTime (timeline s) e → s.anchorSrcUs ≤ e.tsUs ∧
          (e.atUs.toNat : Int) - e.tsUs.toNat = s.anchorLocalUs.toNat - s.anchorSrcUs.toNat) ∧
    ∀ present present' acts acts' s s' heard heard',
      Run (observed (step cfg) noteHeard) (fun t act => Steady cfg t.1 act) (start present, []) acts (s, heard) →
      Run (observed (step cfg) noteHeard) (fun t act => Steady cfg t.1 act) (start present', []) acts' (s', heard') →
      heard.map Prod.fst = heard'.map Prod.fst → heard.filterMap Prod.snd = heard'.filterMap Prod.snd →
        schedules s.log = schedules s'.log := by
  constructor
  · intro present acts s sent h e he hon
    exact (inv_run h).constant he hon
  · intro present present' acts acts' s s' heard heard' h h' hpkts hclocks
    obtain ⟨r, hfold, hview⟩ := steady_run_fed h []
    obtain ⟨r', hfold', hview'⟩ := steady_run_fed h' []
    simp only at hfold hfold' hview hview'
    rw [hpkts, hclocks, hfold'] at hfold
    have hr : r' = r := congrArg Prod.fst hfold
    have heq : view s = view s' := by rw [← hview, ← hview', hr]
    exact congrArg View.pushed heq

def ditArriving (t : UInt64) (pass : UInt64) : List Action :=
  [.datagram 1000 (encode ⟨7, 0, [⟨1, keyDown⟩]⟩), .pass pass,
    .datagram t (encode ⟨7, 0, [⟨1, keyDown⟩, ⟨60000, 0⟩]⟩)]

theorem ditArriving_same_schedule :
    (∃ s d u, Run (observed (step .default) (noteAnchor .default)) (fun _ _ => True) (start true, [])
        (ditArriving 61000 60000) (s, [d, u]) ∧
      OnTime (timeline s) u ∧ (u.atUs.toNat : Int) - u.tsUs.toNat = s.anchorLocalUs.toNat - s.anchorSrcUs.toNat) ∧
    ∃ s s' heard,
      Run (observed (step .default) noteHeard) (fun t act => Steady .default t.1 act) (start true, [])
        (ditArriving 61000 60000) (s, heard) ∧
      Run (observed (step .default) noteHeard) (fun t act => Steady .default t.1 act) (start true, [])
        (ditArriving 200000 151000) (s', heard) ∧
      schedules s.log = schedules s'.log := by
  obtain ⟨⟨s₀, sent⟩, hrun₀, hview₀⟩ := run_of_exec_map (observed (step .default) (noteAnchor .default))
    (fun _ _ => True) (start true, []) (ditArriving 61000 60000) (fun t => (timeline t.1, t.2))
    (⟨1, 151000⟩, [⟨151000, keyDown, 7, 1, 1000⟩, ⟨210999, 0, 7, 60000, 61000⟩]) (by decide +kernel)
  obtain ⟨⟨s, heard⟩, hrun, hview⟩ := run_of_exec_map (observed (step .default) noteHeard)
    (fun t act => Steady .default t.1 act) (start true, []) (ditArriving 61000 60000) (fun t => t.2)
    [(⟨7, 0, [⟨1, keyDown⟩]⟩, some 1000), (⟨7, 0, [⟨1, keyDown⟩, ⟨60000, 0⟩]⟩, none)] (by decide +kernel)
  obtain ⟨⟨s', heard'⟩, hrun', hview'⟩ := run_of_exec_map (observed (step .default) noteHeard)
    (fun t act => Steady .default t.1 act) (start true, []) (ditArriving 200000 151000) (fun t => t.2)
    [(⟨7, 0, [⟨1, keyDown⟩]⟩, some 1000), (⟨7, 0, [⟨1, keyDown⟩, ⟨60000, 0⟩]⟩, none)] (by decide +kernel)
  obtain ⟨hline, hsent⟩ := Prod.mk.inj hview₀
  simp only at hline hsent hview hview'
  subst hsent hview hview'
  have hon : OnTime (timeline s₀) ⟨210999, 0, 7, 60000, 61000⟩ := by
    rw [hline]
    exact ⟨by decide, by decide⟩
  refine ⟨⟨s₀, _, _, hrun₀, hon, ?_⟩, s, s', _, hrun, hrun', ?_⟩
  · exact ((spacing_independent_of_jitter .default).1 true _ s₀ _ hrun₀ _ (by simp) hon).2
  · exact (spacing_independent_of_jitter .default).2 true true _ _ s s' _ _ hrun hrun' rfl rfl

end Cwsd.RemoteKeySpacing

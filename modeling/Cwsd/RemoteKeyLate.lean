import Cwsd.RemoteKeyPlayout

namespace Cwsd.RemoteKeyLate

open RemoteKeyProtocol RemoteKeyServer RemoteKeyStream RemoteKeyKeying RemoteKeyPlayout Runs

def noteSession (cfg : Config) (s : Server) (act : Action) (sent : List ScheduledEdge) : List ScheduledEdge :=
  match act with
  | .datagram now bytes =>
      match decode (bytes.take maxPacketBytes) with
      | none => sent
      | some pkt => ofSession pkt s sent ++ pushedBetween s (handlePacket cfg now pkt s)
  | .pass _ | .plug | .unplug => sent

def isKeyDown (e : Edge) : Bool := e.state &&& keyDown != 0

/-- What keeps the elements of a session apart when a packet comes at the time now:
no sum exceeds 64 bits; a key-up whose slot is not after now follows no key-down of
the session with the same arrival time; and a packet that anchors the session anew
finds no key-down scheduled past the playout delay. -/
structure InTime (cfg : Config) (now : UInt64) (pkt : Packet) (s : Server) (sent : List ScheduledEdge) : Prop where
  fits : ∀ e ∈ newEdges pkt s, (timeline (anchored cfg now pkt s)).Fits e
  playout : newEdges pkt s ≠ [] → (openSession pkt s).haveAnchor = false →
    now.toNat + cfg.playoutMs.toNat * 1000 < 2 ^ 64
  keyUps : ∀ u ∈ newEdges pkt s, isKeyDown u = false → (timeline (anchored cfg now pkt s)).slot u ≤ now →
    (∀ d ∈ sent, d.isDown = true → d.rxUs ≠ now) ∧
      ∀ d ∈ newEdges pkt s, d.tsUs < u.tsUs → isKeyDown d = false
  reanchor : newEdges pkt s ≠ [] → (openSession pkt s).haveAnchor = false →
    ∀ d ∈ sent, d.isDown = true → d.atUs.toNat < now.toNat + cfg.playoutMs.toNat * 1000

instance (cfg : Config) (now : UInt64) (pkt : Packet) (s : Server) (sent : List ScheduledEdge) :
    Decidable (InTime cfg now pkt s sent) :=
  decidable_of_iff
    ((∀ e ∈ newEdges pkt s, (timeline (anchored cfg now pkt s)).Fits e) ∧
      (newEdges pkt s ≠ [] → (openSession pkt s).haveAnchor = false →
        now.toNat + cfg.playoutMs.toNat * 1000 < 2 ^ 64) ∧
      (∀ u ∈ newEdges pkt s, isKeyDown u = false → (timeline (anchored cfg now pkt s)).slot u ≤ now →
        (∀ d ∈ sent, d.isDown = true → d.rxUs ≠ now) ∧
          ∀ d ∈ newEdges pkt s, d.tsUs < u.tsUs → isKeyDown d = false) ∧
      (newEdges pkt s ≠ [] → (openSession pkt s).haveAnchor = false →
        ∀ d ∈ sent, d.isDown = true → d.atUs.toNat < now.toNat + cfg.playoutMs.toNat * 1000))
    ⟨fun h => ⟨h.1, h.2.1, h.2.2.1, h.2.2.2⟩, fun h => ⟨h.fits, h.playout, h.keyUps, h.reanchor⟩⟩

def Timely (cfg : Config) (t : Server × List ScheduledEdge) : Action → Prop
  | .datagram now bytes => t.1.clockUs ≤ now ∧
      ∀ pkt ∈ decode (bytes.take maxPacketBytes), InTime cfg now pkt t.1 (ofSession pkt t.1 t.2)
  | .pass now => t.1.clockUs ≤ now
  | .plug | .unplug => True

instance (cfg : Config) (t : Server × List ScheduledEdge) (act : Action) : Decidable (Timely cfg t act) :=
  match act with
  | .datagram now bytes =>
      inferInstanceAs (Decidable (t.1.clockUs ≤ now ∧
        ∀ pkt ∈ decode (bytes.take maxPacketBytes), InTime cfg now pkt t.1 (ofSession pkt t.1 t.2)))
  | .pass _ => inferInstanceAs (Decidable (_ ≤ _))
  | .plug | .unplug => inferInstanceAs (Decidable True)

/-- A key-down as the anchor in force places it, or one of an earlier anchor. -/
def Placed (l : Timeline) (d : ScheduledEdge) : Prop :=
  l.srcUs ≤ d.tsUs ∧ d.atUs.toNat = max d.rxUs.toNat (l.localUs.toNat + (d.tsUs.toNat - l.srcUs.toNat)) ∨
    d.atUs.toNat < l.localUs.toNat

structure Inv (s : Server) (sent : List ScheduledEdge) : Prop where
  apart : sent.Pairwise fun d u => d.isDown = true → u.isDown = false → d.atUs.toNat < u.atUs.toNat
  arrived : ∀ e ∈ sent, e.rxUs.toNat ≤ s.clockUs.toNat
  marked : ∀ e ∈ sent, e.tsUs.toNat ≤ s.lastEnqueuedSrc.toNat
  anchor : AnchorBelow s
  placed : s.haveAnchor = true → ∀ d ∈ sent, d.isDown = true → Placed (timeline s) d

variable {cfg : Config} {now : UInt64} {pkt : Packet} {s : Server} {sent : List ScheduledEdge}

theorem placed_entry {l : Timeline} {e : Edge} (hsrc : l.srcUs ≤ e.tsUs) (hfits : l.Fits e) (session : UInt16) :
    Placed l (l.entry now session e) := by
  refine .inl ⟨hsrc, ?_⟩
  rw [Timeline.toNat_entry, Timeline.toNat_slot hsrc hfits]
  rfl

theorem lt_entry {l : Timeline} {d : ScheduledEdge} {u : Edge} (session : UInt16) (hd : Placed l d)
    (hsrc : l.srcUs ≤ u.tsUs) (hfits : l.Fits u) (hts : d.tsUs.toNat < tsNat u)
    (hlate : d.rxUs.toNat < now.toNat ∨ d.rxUs.toNat ≤ now.toNat ∧ now < l.slot u) :
    d.atUs.toNat < (l.entry now session u).atUs.toNat := by
  have hslot := Timeline.toNat_slot hsrc hfits
  have hsrc' := UInt64.le_iff_toNat_le.mp hsrc
  rw [UInt64.lt_iff_toNat_lt] at hlate
  rw [Timeline.toNat_entry, hslot]
  rw [hslot] at hlate
  simp only [tsNat] at hts
  rcases hd with ⟨hle, hat⟩ | hat
  · have hle' := UInt64.le_iff_toNat_le.mp hle
    omega
  · omega

theorem inv_openSession (h : Inv s sent) : Inv (openSession pkt s) (ofSession pkt s sent) := by
  rw [openSession, ofSession]
  split
  · exact ⟨.nil, by simp, by simp, by simp [AnchorBelow], by simp⟩
  · exact h

theorem placed_anchored (h : Inv s sent) (hok : InTime cfg now pkt s (ofSession pkt s sent))
    (hnew : newEdges pkt s ≠ []) :
    ∀ d ∈ ofSession pkt s sent, d.isDown = true → Placed (timeline (anchored cfg now pkt s)) d := by
  intro d hd hdown
  rw [timeline_anchored]
  split
  · rename_i hanchor
    exact (inv_openSession h).placed hanchor d hd hdown
  · rename_i hanchor
    rw [Bool.not_eq_true] at hanchor
    obtain ⟨e, rest, hcons⟩ := List.exists_cons_of_ne_nil hnew
    rw [hcons]
    right
    simp only [List.head?_cons, Option.map_some, Option.getD_some]
    rw [toNat_add_us (hok.playout hnew hanchor)]
    exact hok.reanchor hnew hanchor d hd hdown

theorem placed_new (h : Inv s sent) (hok : InTime cfg now pkt s (ofSession pkt s sent)) :
    ∀ e ∈ newEdges pkt s,
      Placed (timeline (anchored cfg now pkt s)) ((timeline (anchored cfg now pkt s)).entry now pkt.sessionId e) :=
  fun e he => placed_entry (src_le_of_new cfg now pkt h.anchor e he) (hok.fits e he) pkt.sessionId

theorem arrived_ofSession (h : Inv s sent) (hclock : s.clockUs = now) :
    ∀ d ∈ ofSession pkt s sent, d.rxUs.toNat ≤ now.toNat := by
  intro d hd
  rw [← hclock]
  apply h.arrived
  revert hd
  rw [ofSession]
  split
  · intro hd
    cases hd
  · exact id

/-- Within one packet, a key-up that follows a key-down has its slot still ahead. -/
theorem entries_apart (h : Inv s sent) (hok : InTime cfg now pkt s (ofSession pkt s sent)) :
    (entries cfg now pkt s).Pairwise fun d u =>
      d.isDown = true → u.isDown = false → d.atUs.toNat < u.atUs.toNat := by
  rw [entries, List.pairwise_map]
  refine (newEdges_sorted pkt s).2.imp_of_mem fun {d u} hd hu hlt hdown hup => ?_
  have hafter : now < (timeline (anchored cfg now pkt s)).slot u := by
    by_contra hslot
    have hno := (hok.keyUps u hu hup (UInt64.not_lt.mp hslot)).2 d hd (UInt64.lt_iff_toNat_lt.mpr hlt)
    exact absurd hdown (Bool.eq_false_iff.mp hno)
  exact lt_entry pkt.sessionId (placed_new h hok d hd) (src_le_of_new cfg now pkt h.anchor u hu) (hok.fits u hu) hlt
    (.inr ⟨Nat.le_refl _, hafter⟩)

theorem apart_from_sent (h : Inv s sent) (hclock : s.clockUs = now)
    (hok : InTime cfg now pkt s (ofSession pkt s sent)) :
    ∀ d ∈ ofSession pkt s sent, ∀ b ∈ entries cfg now pkt s,
      d.isDown = true → b.isDown = false → d.atUs.toNat < b.atUs.toNat := by
  intro d hd b hb hdown hup
  obtain ⟨u, hu, rfl⟩ := List.mem_map.mp hb
  have hts : d.tsUs.toNat < tsNat u :=
    Nat.lt_of_le_of_lt ((inv_openSession h).marked d hd) ((newEdges_sorted pkt s).1 u hu).1
  have hplaced := placed_anchored h hok (List.ne_nil_of_mem hu) d hd hdown
  have hle := arrived_ofSession h hclock d hd
  apply lt_entry pkt.sessionId hplaced (src_le_of_new cfg now pkt h.anchor u hu) (hok.fits u hu) hts
  by_cases hslot : (timeline (anchored cfg now pkt s)).slot u ≤ now
  · have hno := (hok.keyUps u hu hup hslot).1 d hd hdown
    exact .inl (Nat.lt_of_le_of_ne hle fun heq => hno (UInt64.toNat_inj.mp heq))
  · exact .inr ⟨hle, UInt64.not_le.mp hslot⟩

theorem placed_enqueue (h : Inv s sent) (hok : InTime cfg now pkt s (ofSession pkt s sent))
    (hanchor : (enqueue cfg now pkt s).haveAnchor = true) :
    ∀ d ∈ ofSession pkt s sent ++ entries cfg now pkt s, d.isDown = true →
      Placed (timeline (enqueue cfg now pkt s)) d := by
  intro d hd hdown
  rw [timeline_enqueue]
  rcases List.mem_append.mp hd with hd | hd
  · by_cases hnil : newEdges pkt s = []
    · rw [haveAnchor_enqueue, haveAnchor_anchored, hnil] at hanchor
      rw [timeline_anchored, if_pos (by simpa using hanchor)]
      exact (inv_openSession h).placed (by simpa using hanchor) d hd hdown
    · exact placed_anchored h hok hnil d hd hdown
  · obtain ⟨x, hx, rfl⟩ := List.mem_map.mp hd
    exact placed_new h hok x hx

theorem inv_enqueue (h : Inv s sent) (hclock : s.clockUs = now)
    (hok : InTime cfg now pkt s (ofSession pkt s sent)) :
    Inv (enqueue cfg now pkt s) (ofSession pkt s sent ++ entries cfg now pkt s) := by
  have hopen : Inv (openSession pkt s) (ofSession pkt s sent) := inv_openSession h
  obtain ⟨hmark, htop⟩ := le_mark_enqueue cfg now pkt s
  refine ⟨?_, ?_, ?_, anchorBelow_enqueue cfg now pkt h.anchor, placed_enqueue h hok⟩
  · rw [List.pairwise_append]
    exact ⟨hopen.apart, entries_apart h hok, apart_from_sent h hclock hok⟩
  · intro e he
    rw [(session_enqueue cfg now pkt s).2.2, hclock]
    rcases List.mem_append.mp he with he | he
    · exact arrived_ofSession h hclock e he
    · obtain ⟨x, -, rfl⟩ := List.mem_map.mp he
      exact Nat.le_refl _
  · intro e he
    rcases List.mem_append.mp he with he | he
    · exact Nat.le_trans (hopen.marked e he) hmark
    · obtain ⟨x, hx, rfl⟩ := List.mem_map.mp he
      exact htop x hx

theorem inv_pass (h : Inv s sent) (hle : s.clockUs ≤ now) : Inv (replayPass cfg now s) sent := by
  have hr := receiver_pass cfg now s
  have hclock : (replayPass cfg now s).clockUs = now := congrArg Receiver.clockUs hr
  have hmark : (replayPass cfg now s).lastEnqueuedSrc = s.lastEnqueuedSrc := congrArg Receiver.lastEnqueuedSrc hr
  refine ⟨h.apart, ?_, by rw [hmark]; exact h.marked, anchorBelow_pass cfg now h.anchor, ?_⟩
  · intro e he
    rw [hclock]
    exact Nat.le_trans (h.arrived e he) (UInt64.le_iff_toNat_le.mp hle)
  · intro hanchor
    rw [haveAnchor_pass, Bool.and_eq_true] at hanchor
    rw [timeline_pass]
    exact h.placed hanchor.1

theorem inTime_rx (h : InTime cfg now pkt s sent) :
    InTime cfg now pkt (storeRx now { s with clockUs := now }) sent := by
  have hopen :
      (openSession pkt (storeRx now { s with clockUs := now })).haveAnchor = (openSession pkt s).haveAnchor := by
    have hopens : opensSession pkt (storeRx now { s with clockUs := now }) = opensSession pkt s := rfl
    simp only [openSession, hopens]
    split <;> rfl
  refine ⟨?_, ?_, ?_, ?_⟩
  · rw [newEdges_rx, timeline_anchored_rx]
    exact h.fits
  · rw [newEdges_rx, hopen]
    exact h.playout
  · rw [newEdges_rx, timeline_anchored_rx]
    exact h.keyUps
  · rw [newEdges_rx, hopen]
    exact h.reanchor

theorem inv_step {t t' : Server × List ScheduledEdge} {act : Action} (h : Inv t.1 t.2) (hok : Timely cfg t act)
    (hs : observed (step cfg) (noteSession cfg) t act = some t') : Inv t'.1 t'.2 := by
  obtain ⟨s, sent⟩ := t
  obtain ⟨s', sent'⟩ := t'
  obtain ⟨hstep, hnote⟩ := observed_eq_some.mp hs
  simp only at h hstep hnote ⊢
  subst hnote
  cases act with
  | datagram now bytes =>
      cases hstep
      simp only [receiveDatagram, noteSession]
      cases hpkt : decode (bytes.take maxPacketBytes) with
      | none => exact h
      | some pkt =>
          have hheard : Inv (storeRx now { s with clockUs := now }) sent := by
            refine ⟨h.apart, fun e he => ?_, h.marked, h.anchor, h.placed⟩
            exact Nat.le_trans (h.arrived e he) (UInt64.le_iff_toNat_le.mp hok.1)
          simp only [pushedBetween_handlePacket cfg now pkt s, ← entries_rx cfg now pkt s]
          exact inv_enqueue hheard rfl (inTime_rx (hok.2 pkt hpkt))
  | pass now =>
      cases hstep
      exact inv_pass h hok
  | plug | unplug =>
      cases hstep
      exact ⟨h.apart, h.arrived, h.marked, h.anchor, h.placed⟩

/-- In every session whose packets are in time, a key-down stays down for some time:
every later key-up is scheduled strictly after it. -/
theorem late_element_not_lost (cfg : Config) (present : Bool) (acts : List Action) (s : Server)
    (sent : List ScheduledEdge)
    (h : Run (observed (step cfg) (noteSession cfg)) (Timely cfg) (start present, []) acts (s, sent)) :
    sent.Pairwise fun d u => d.isDown = true → u.isDown = false → d.tsUs < u.tsUs → d.atUs < u.atUs := by
  have hstart : Inv (start present) [] :=
    ⟨.nil, by simp, by simp, by simp [AnchorBelow, start], by simp⟩
  have hinv := h.invariant (fun t => Inv t.1 t.2) hstart fun _ _ _ hk hok hs => inv_step hk hok hs
  exact hinv.apart.imp fun hlt hdown hup _ => UInt64.lt_iff_toNat_lt.mpr (hlt hdown hup)

def lateKeyDown : List Action :=
  [.datagram 1000 (encode ⟨7, 0, [⟨1, keyDown⟩, ⟨60000, 0⟩]⟩), .pass 151000, .datagram 200000 (encode ⟨7, 0, []⟩),
    .pass 210999, .datagram 300000 (encode ⟨7, 0, [⟨100000, keyDown⟩, ⟨160000, 0⟩]⟩)]

theorem lateKeyDown_not_lost :
    ∃ s sent, Run (observed (step .default) (noteSession .default)) (Timely .default) (start true, []) lateKeyDown
        (s, sent) ∧
      sent.map (·.atUs) = [151000, 210999, 300000, 310999] ∧
      sent.Pairwise fun d u => d.isDown = true → u.isDown = false → d.tsUs < u.tsUs → d.atUs < u.atUs := by
  obtain ⟨⟨s, sent⟩, hrun, hview⟩ := run_of_exec_map (observed (step .default) (noteSession .default))
    (Timely .default) (start true, []) lateKeyDown (fun t => t.2.map (·.atUs)) [151000, 210999, 300000, 310999]
    (by decide +kernel)
  exact ⟨s, sent, hrun, hview, late_element_not_lost .default true lateKeyDown s sent hrun⟩

/-- The second packet comes after the slots of both its edges. -/
def lateElement : List Action :=
  [.datagram 1000 (encode ⟨7, 0, [⟨1, keyDown⟩, ⟨60000, 0⟩]⟩), .pass 151000, .datagram 200000 (encode ⟨7, 0, []⟩),
    .pass 210999, .datagram 300000 (encode ⟨7, 0, [⟨100000, keyDown⟩, ⟨140000, 0⟩]⟩), .pass 300000]

def ClockOnly (t : Server × List ScheduledEdge) : Action → Prop
  | .datagram now _ | .pass now => t.1.clockUs ≤ now
  | .plug | .unplug => True

instance (t : Server × List ScheduledEdge) (act : Action) : Decidable (ClockOnly t act) :=
  match act with
  | .datagram _ _ | .pass _ => inferInstanceAs (Decidable (_ ≤ _))
  | .plug | .unplug => inferInstanceAs (Decidable True)

/-- Its key-down and key-up are both scheduled for the arrival, and one pass applies them. -/
theorem lateElement_lost :
    ∃ s d₁ u₁ d₂ u₂, Run (observed (step .default) (noteSession .default)) ClockOnly (start true, []) lateElement
        (s, [d₁, u₁, d₂, u₂]) ∧
      d₂.isDown = true ∧ u₂.isDown = false ∧ d₂.tsUs < u₂.tsUs ∧ d₂.atUs = u₂.atUs ∧
      s.log.take 4 = [.setKey 300000 false, .popped 300000 u₂, .setKey 300000 true, .popped 300000 d₂] := by
  obtain ⟨⟨s, sent⟩, hrun, hview⟩ := run_of_exec_map (observed (step .default) (noteSession .default))
    ClockOnly (start true, []) lateElement (fun t => (t.2, t.1.log.take 4))
    ([⟨151000, keyDown, 7, 1, 1000⟩, ⟨210999, 0, 7, 60000, 1000⟩, ⟨300000, keyDown, 7, 100000, 300000⟩,
        ⟨300000, 0, 7, 140000, 300000⟩],
      [.setKey 300000 false, .popped 300000 ⟨300000, 0, 7, 140000, 300000⟩, .setKey 300000 true,
        .popped 300000 ⟨300000, keyDown, 7, 100000, 300000⟩]) (by decide +kernel)
  obtain ⟨hsent, hlog⟩ := Prod.mk.inj hview
  simp only at hsent hlog
  subst hsent
  exact ⟨s, _, _, _, _, hrun, rfl, rfl, by decide, rfl, hlog⟩

end Cwsd.RemoteKeyLate

import Cwsd.RemoteKeyPlayout

namespace Cwsd.RemoteKeyOrder

open RemoteKeyProtocol RemoteKeyServer RemoteKeyStream RemoteKeyKeying RemoteKeyPlayout Runs

/-- A clock that never goes back and stays below 2^63. -/
def ClockOk (s : Server) : Action → Prop
  | .datagram now _ | .pass now => s.clockUs ≤ now ∧ now.toNat < 2 ^ 63
  | .plug | .unplug => True

instance (s : Server) (act : Action) : Decidable (ClockOk s act) :=
  match act with
  | .datagram _ _ | .pass _ => inferInstanceAs (Decidable (_ ∧ _))
  | .plug | .unplug => inferInstanceAs (Decidable True)

/-- The slot of every new edge of a packet lies within 64 bits. -/
def Unwrapped (cfg : Config) (s : Server) : Action → Prop
  | .datagram now bytes => ∀ pkt ∈ decode (bytes.take maxPacketBytes), ∀ e ∈ newEdges pkt s,
      (timeline (anchored cfg now pkt s)).Fits e
  | .pass _ | .plug | .unplug => True

instance (cfg : Config) (s : Server) (act : Action) : Decidable (Unwrapped cfg s act) :=
  match act with
  | .datagram now bytes =>
      inferInstanceAs (Decidable (∀ pkt ∈ decode (bytes.take maxPacketBytes), ∀ e ∈ newEdges pkt s,
        (timeline (anchored cfg now pkt s)).Fits e))
  | .pass _ | .plug | .unplug => inferInstanceAs (Decidable True)

/-- The slot of the last edge that passed the high-water mark. -/
def horizon (s : Server) : Nat :=
  s.anchorLocalUs.toNat + (s.lastEnqueuedSrc.toNat - s.anchorSrcUs.toNat)

/-- The queue is sorted, and nothing in it lies beyond the clock and the horizon. -/
structure Inv (s : Server) : Prop where
  sorted : s.queue.Pairwise fun a b => a.atUs.toNat ≤ b.atUs.toNat
  arrived : ∀ e ∈ s.queue, e.rxUs.toNat ≤ e.atUs.toNat
  anchor : AnchorBelow s
  empty : s.haveAnchor = false → s.queue = []
  bounded : ∀ e ∈ s.queue, e.atUs.toNat ≤ max s.clockUs.toNat (horizon s)

variable {cfg : Config} {now : UInt64} {pkt : Packet} {s : Server}

theorem inv_clock (h : Inv s) (hle : s.clockUs ≤ now) : Inv (storeRx now { s with clockUs := now }) := by
  refine ⟨h.sorted, h.arrived, h.anchor, h.empty, ?_⟩
  intro e he
  have hle' := UInt64.le_iff_toNat_le.mp hle
  exact Nat.le_trans (h.bounded e he) (by simp only [storeRx, horizon]; omega)

theorem inv_openSession (h : Inv s) : Inv (openSession pkt s) := by
  have hanchor : AnchorBelow (openSession pkt s) := anchorBelow_openSession pkt h.anchor
  revert hanchor
  rw [openSession]
  split
  · exact fun hanchor => ⟨.nil, by simp, hanchor, fun _ => rfl, by simp⟩
  · exact fun _ => h

theorem clockUs_openSession : (openSession pkt s).clockUs = s.clockUs := by
  rw [openSession]
  split <;> rfl

theorem sorted_entries {l : Timeline} {edges : List Edge} (hsorted : edges.Pairwise fun a b => tsNat a < tsNat b)
    (hsrc : ∀ e ∈ edges, l.srcUs ≤ e.tsUs) (hfits : ∀ e ∈ edges, l.Fits e) :
    (edges.map (l.entry now pkt.sessionId)).Pairwise fun a b => a.atUs.toNat ≤ b.atUs.toNat := by
  rw [List.pairwise_map]
  refine hsorted.imp_of_mem fun {a b} ha hb hlt => ?_
  rw [Timeline.toNat_entry, Timeline.toNat_entry, Timeline.toNat_slot (hsrc a ha) (hfits a ha),
    Timeline.toNat_slot (hsrc b hb) (hfits b hb)]
  simp only [tsNat] at hlt
  omega

theorem horizon_enqueue (cfg : Config) (now : UInt64) (pkt : Packet) (s : Server) :
    horizon (enqueue cfg now pkt s) = (timeline (anchored cfg now pkt s)).localUs.toNat +
      ((enqueue cfg now pkt s).lastEnqueuedSrc.toNat - (timeline (anchored cfg now pkt s)).srcUs.toNat) := by
  rw [← timeline_enqueue cfg now pkt s]
  rfl

theorem queue_bounded (cfg : Config) (h : Inv s) (hclock : s.clockUs = now) {e : ScheduledEdge}
    (he : e ∈ (openSession pkt s).queue) :
    e.atUs.toNat ≤ max now.toNat ((timeline (anchored cfg now pkt s)).localUs.toNat +
      ((openSession pkt s).lastEnqueuedSrc.toNat - (timeline (anchored cfg now pkt s)).srcUs.toNat)) := by
  have hopen : Inv (openSession pkt s) := inv_openSession h
  have hanchor : (openSession pkt s).haveAnchor = true := by
    by_contra hno
    rw [hopen.empty (Bool.eq_false_iff.mpr hno)] at he
    cases he
  have hbound := hopen.bounded e he
  rw [clockUs_openSession, hclock] at hbound
  rw [timeline_anchored, if_pos hanchor]
  exact hbound

theorem toNat_entry_new (h : Inv s)
    (hfits : ∀ e ∈ newEdges pkt s, (timeline (anchored cfg now pkt s)).Fits e) {e : Edge} (he : e ∈ newEdges pkt s) :
    ((timeline (anchored cfg now pkt s)).entry now pkt.sessionId e).atUs.toNat =
      max now.toNat ((timeline (anchored cfg now pkt s)).localUs.toNat +
        (tsNat e - (timeline (anchored cfg now pkt s)).srcUs.toNat)) := by
  have hsrc := src_le_of_new cfg now pkt h.anchor e he
  rw [Timeline.toNat_entry, Timeline.toNat_slot hsrc (hfits e he), tsNat]

theorem inv_enqueue (h : Inv s) (hclock : s.clockUs = now)
    (hfits : ∀ e ∈ newEdges pkt s, (timeline (anchored cfg now pkt s)).Fits e) :
    Inv (enqueue cfg now pkt s) := by
  have hopen : Inv (openSession pkt s) := inv_openSession h
  obtain ⟨hnew, hsorted⟩ := newEdges_sorted pkt s
  obtain ⟨hmark, htop⟩ := le_mark_enqueue cfg now pkt s
  have hq := queue_enqueue cfg now pkt s
  refine ⟨?_, ?_, anchorBelow_enqueue cfg now pkt h.anchor, ?_, ?_⟩
  · rw [hq, List.pairwise_append]
    refine ⟨hopen.sorted, sorted_entries hsorted (src_le_of_new cfg now pkt h.anchor) hfits, ?_⟩
    intro a ha b hb
    obtain ⟨e, he, rfl⟩ := List.mem_map.mp hb
    have hlt := hnew e he
    have hbound := queue_bounded cfg h hclock ha
    rw [toNat_entry_new h hfits he]
    omega
  · intro e he
    rw [hq, List.mem_append] at he
    rcases he with he | he
    · exact hopen.arrived e he
    · obtain ⟨x, hx, rfl⟩ := List.mem_map.mp he
      rw [toNat_entry_new h hfits hx]
      exact Nat.le_max_left _ _
  · intro hno
    rw [haveAnchor_enqueue, haveAnchor_anchored, Bool.or_eq_false_iff] at hno
    obtain ⟨hanchor, hnil⟩ := hno
    have hnil' : newEdges pkt s = [] := by simpa using hnil
    rw [hq, hopen.empty hanchor, entries, hnil']
    rfl
  · intro e he
    rw [(session_enqueue cfg now pkt s).2.2, hclock, horizon_enqueue]
    rw [hq, List.mem_append] at he
    rcases he with he | he
    · have hbound := queue_bounded cfg h hclock he
      omega
    · obtain ⟨x, hx, rfl⟩ := List.mem_map.mp he
      have ht := htop x hx
      rw [toNat_entry_new h hfits hx]
      omega

theorem inv_pass (h : Inv s) (hle : s.clockUs ≤ now) : Inv (replayPass cfg now s) := by
  obtain ⟨out, rest, heq, -, hstream⟩ := stream_pass cfg now s
  have hq : (replayPass cfg now s).queue = rest := congrArg Stream.queue hstream
  have hr := receiver_pass cfg now s
  have hclock : (replayPass cfg now s).clockUs = now := congrArg Receiver.clockUs hr
  have hhorizon : horizon (replayPass cfg now s) = horizon s :=
    congrArg (fun r : Receiver => r.anchorLocalUs.toNat + (r.lastEnqueuedSrc.toNat - r.anchorSrcUs.toNat)) hr
  have hsub : rest.Sublist s.queue := by
    have hkept : (out ++ rest).Sublist s.queue := by
      rw [← heq]
      split
      · exact List.nil_sublist _
      · exact List.Sublist.refl _
    exact (List.sublist_append_right out rest).trans hkept
  refine ⟨by rw [hq]; exact h.sorted.sublist hsub, ?_, anchorBelow_pass cfg now h.anchor, ?_, ?_⟩
  · intro e he
    exact h.arrived e (hsub.subset (hq ▸ he))
  · intro hno
    rw [haveAnchor_pass, Bool.and_eq_false_iff] at hno
    rw [hq]
    rcases hno with hno | hsilent
    · rw [h.empty hno] at hsub
      exact List.sublist_nil.mp hsub
    · rw [if_pos (by simpa using hsilent)] at heq
      exact (List.append_eq_nil_iff.mp heq.symm).2
  · intro e he
    rw [hclock, hhorizon]
    have hb := h.bounded e (hsub.subset (hq ▸ he))
    have hle' := UInt64.le_iff_toNat_le.mp hle
    omega

theorem inv_step {s' : Server} {act : Action} (h : Inv s) (hok : ClockOk s act ∧ Unwrapped cfg s act)
    (hs : step cfg s act = some s') : Inv s' := by
  cases act with
  | datagram now bytes =>
      cases hs
      simp only [receiveDatagram]
      split
      · exact h
      · rename_i pkt hpkt
        refine inv_enqueue (inv_clock h hok.1.1) rfl ?_
        rw [newEdges_rx, timeline_anchored_rx]
        exact hok.2 pkt hpkt
  | pass now =>
      cases hs
      exact inv_pass h hok.1.1
  | plug | unplug =>
      cases hs
      exact ⟨h.sorted, h.arrived, h.anchor, h.empty, h.bounded⟩

theorem due_after_drain {due : List ScheduledEdge} (hsorted : due.Pairwise fun a b => a.atUs.toNat ≤ b.atUs.toNat) :
    ∀ e ∈ (applyDue cfg now due s).queue, now < e.atUs := by
  induction due generalizing s with
  | nil => simp [applyDue]
  | cons se due ih =>
      obtain ⟨hhead, htail⟩ := List.pairwise_cons.mp hsorted
      simp only [applyDue]
      split
      · exact ih htail
      · rename_i hlater
        have hlt : now.toNat < se.atUs.toNat := UInt64.lt_iff_toNat_lt.mp (UInt64.not_le.mp hlater)
        intro e he
        rw [UInt64.lt_iff_toNat_lt]
        rcases List.mem_cons.mp he with rfl | he
        · exact hlt
        · exact Nat.lt_of_lt_of_le hlt (hhead e he)

/-- As long as no slot exceeds 64 bits, the jitter buffer is sorted, no entry is due
before it arrived, and a drain leaves nothing behind that is due. -/
theorem jitter_buffer_ordered (cfg : Config) (present : Bool) (acts : List Action) (s : Server)
    (h : Run (step cfg) (fun s act => ClockOk s act ∧ Unwrapped cfg s act) (start present) acts s) :
    s.queue.Pairwise (fun a b => a.atUs ≤ b.atUs) ∧ (∀ e ∈ s.queue, e.rxUs ≤ e.atUs) ∧
      ∀ now, ∀ e ∈ (drain cfg now s).queue, now < e.atUs := by
  have hstart : Inv (start present) :=
    ⟨by simp [start], by simp [start], by simp [AnchorBelow, start], fun _ => rfl, by simp [start]⟩
  have hinv := h.invariant Inv hstart fun _ _ _ hk hok hs => inv_step hk hok hs
  refine ⟨hinv.sorted.imp fun hle => UInt64.le_iff_toNat_le.mpr hle, ?_, fun now => due_after_drain hinv.sorted⟩
  intro e he
  exact UInt64.le_iff_toNat_le.mpr (hinv.arrived e he)

def twoPackets : List Action :=
  [.datagram 1000 (encode ⟨7, 0, [⟨1, keyDown⟩, ⟨60000, 0⟩]⟩), .pass 151000,
    .datagram 300000 (encode ⟨7, 0, [⟨60000, 0⟩, ⟨120000, keyDown⟩]⟩)]

theorem twoPackets_ordered :
    ∃ s, Run (step .default) (fun s act => ClockOk s act ∧ Unwrapped .default s act) (start true) twoPackets s ∧
      s.queue.map (·.atUs) = [210999, 300000] ∧ s.queue.Pairwise (fun a b => a.atUs ≤ b.atUs) := by
  obtain ⟨s, hrun, hview⟩ := run_of_exec_map (step .default)
    (fun s act => ClockOk s act ∧ Unwrapped .default s act) (start true) twoPackets
    (fun s => s.queue.map (·.atUs)) [210999, 300000] (by decide +kernel)
  exact ⟨s, hrun, hview, (jitter_buffer_ordered .default true twoPackets s hrun).1⟩

def farApart : List Action :=
  [.datagram 1000 (encode ⟨7, 0, [⟨1, keyDown⟩, ⟨18446744073709551615, 0⟩]⟩)]

theorem farApart_out_of_order :
    ∃ s, Run (step .default) ClockOk (start true) farApart s ∧
      s.queue.map (·.atUs) = [151000, 150998] ∧ ¬ s.queue.Pairwise (fun a b => a.atUs ≤ b.atUs) ∧
      ∃ e ∈ (drain .default 150999 s).queue, e.atUs ≤ 150999 := by
  obtain ⟨s, hrun, hview⟩ := run_of_exec_map (step .default) ClockOk (start true) farApart
    (fun s => s.queue) [⟨151000, keyDown, 7, 1, 1000⟩, ⟨150998, 0, 7, 18446744073709551615, 1000⟩]
    (by decide +kernel)
  refine ⟨s, hrun, by rw [hview]; rfl, by rw [hview]; decide, ?_⟩
  rw [drain, hview, applyDue, if_neg (by decide)]
  exact ⟨⟨150998, 0, 7, 18446744073709551615, 1000⟩, by simp, by decide⟩

end Cwsd.RemoteKeyOrder

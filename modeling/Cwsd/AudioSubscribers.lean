import Cwsd.AudioStreamServer
import Cwsd.Runs
import Mathlib.Data.List.Nodup

namespace Cwsd.AudioSubscribers

open AudioStreamServer Runs

/-- What has happened: the datagrams, newest first, and the real time of the last sweep. -/
structure Past where
  heard : List Arrival
  swept : Nat
  deriving DecidableEq, Repr

def notePast (_ : Server) (act : Action) (past : Past) : Past :=
  match act with
  | .poll arrivals now => ⟨arrivals.reverse ++ past.heard, now⟩
  | .broadcast _ => past

def latest (heard : List Arrival) (a : Address) : Option Nat := (heard.find? (·.sender == a)).map (·.time)

def Live (cfg : Config) (past : Past) (a : Address) : Prop :=
  ∃ t ∈ latest past.heard a, past.swept - t < cfg.clientTimeoutMs.toInt

instance (cfg : Config) (past : Past) (a : Address) : Decidable (Live cfg past a) :=
  inferInstanceAs (Decidable (∃ t ∈ latest past.heard a, _))

/-- Real time does not go back, and sweeps are at most 2^31 ms apart. -/
def SweepsInTime (t : Server × Past) : Action → Prop
  | .poll arrivals now => (arrivals.map (·.time)).Pairwise (· ≤ ·) ∧
      (∀ d ∈ arrivals, t.2.swept ≤ d.time ∧ d.time ≤ now) ∧ t.2.swept ≤ now ∧ now ≤ t.2.swept + 2 ^ 31
  | .broadcast _ => True

instance (t : Server × Past) (act : Action) : Decidable (SweepsInTime t act) :=
  match act with
  | .poll _ _ => inferInstanceAs (Decidable (_ ∧ _ ∧ _ ∧ _))
  | .broadcast _ => inferInstanceAs (Decidable True)

/-- The table as of a sweep: one entry for each sender that was heard within the
timeout before it, with the reading of the clock at its latest datagram. -/
structure Table (timeout swept : Nat) (heard : List Arrival) (clients : Clients) : Prop where
  keyed : ∀ entry ∈ clients, entry.1 = clientKey entry.2.addr
  nodup : (clients.map Prod.fst).Nodup
  sound : ∀ entry ∈ clients, ∃ t ∈ latest heard entry.2.addr,
    entry.2.lastSeenMs = ellapsedMs t ∧ swept < t + timeout
  complete : ∀ a, ∀ t ∈ latest heard a, swept < t + timeout → ∃ entry ∈ clients, entry.2.addr = a

variable {timeout swept t : Nat} {heard : List Arrival} {clients : Clients} {a : Address}

theorem latest_cons_self : latest (⟨a, t⟩ :: heard) a = some t := by simp [latest]

theorem latest_cons_other {b : Address} (h : b ≠ a) : latest (⟨a, t⟩ :: heard) b = latest heard b := by
  simp [latest, Ne.symm h]

theorem Table.key_iff (h : Table timeout swept heard clients) {entry : UInt64 × Client} (he : entry ∈ clients) :
    entry.1 = clientKey a ↔ entry.2.addr = a := by
  rw [h.keyed entry he]
  exact clientKey_injective.eq_iff

theorem Table.refresh (h : Table timeout swept heard clients) (ht : swept < t + timeout)
    {entry : UInt64 × Client} (he : entry ∈ clients) (hkey : entry.1 = clientKey a) :
    Table timeout swept (⟨a, t⟩ :: heard) (refresh (clientKey a) (ellapsedMs t) clients) := by
  have hmem {entry : UInt64 × Client} (he : entry ∈ AudioStreamServer.refresh (clientKey a) (ellapsedMs t) clients) :
      ∃ old ∈ clients, entry.1 = old.1 ∧ entry.2.addr = old.2.addr ∧
        entry.2.lastSeenMs = if old.1 = clientKey a then ellapsedMs t else old.2.lastSeenMs := by
    obtain ⟨old, hold, rfl⟩ := List.mem_map.mp he
    refine ⟨old, hold, ?_⟩
    split <;> exact ⟨rfl, rfl, rfl⟩
  have hof {old : UInt64 × Client} (hold : old ∈ clients) :
      ∃ entry ∈ AudioStreamServer.refresh (clientKey a) (ellapsedMs t) clients, entry.2.addr = old.2.addr := by
    refine ⟨_, List.mem_map.mpr ⟨old, hold, rfl⟩, ?_⟩
    split <;> rfl
  refine ⟨?_, ?_, ?_, ?_⟩
  · intro entry he
    obtain ⟨old, hold, hk, haddr, -⟩ := hmem he
    rw [hk, haddr]
    exact h.keyed old hold
  · have hkeys : (AudioStreamServer.refresh (clientKey a) (ellapsedMs t) clients).map Prod.fst =
        clients.map Prod.fst := by
      rw [AudioStreamServer.refresh, List.map_map]
      apply List.map_congr_left
      intro entry _
      simp only [Function.comp_apply]
      split <;> rfl
    rw [hkeys]
    exact h.nodup
  · intro entry he
    obtain ⟨old, hold, -, haddr, hseen⟩ := hmem he
    rw [haddr, hseen]
    by_cases hka : old.2.addr = a
    · have hk : old.1 = clientKey a := (h.key_iff hold).mpr hka
      rw [if_pos hk, hka]
      exact ⟨t, latest_cons_self, rfl, ht⟩
    · have hk : ¬ old.1 = clientKey a := fun hk => hka ((h.key_iff hold).mp hk)
      rw [if_neg hk, latest_cons_other hka]
      exact h.sound old hold
  · intro b τ hτ hlive
    by_cases hb : b = a
    · obtain ⟨entry', he', haddr⟩ := hof he
      exact ⟨entry', he', haddr.trans (((h.key_iff he).mp hkey).trans hb.symm)⟩
    · rw [latest_cons_other hb] at hτ
      obtain ⟨old, hold, rfl⟩ := h.complete b τ hτ hlive
      exact hof hold

theorem Table.insert (h : Table timeout swept heard clients) (ht : swept < t + timeout)
    (hnew : ∀ entry ∈ clients, entry.1 ≠ clientKey a) :
    Table timeout swept (⟨a, t⟩ :: heard) (clients ++ [(clientKey a, ⟨a, ellapsedMs t⟩)]) := by
  refine ⟨?_, ?_, ?_, ?_⟩
  · intro entry he
    rcases List.mem_append.mp he with he | he
    · exact h.keyed entry he
    · rw [List.mem_singleton.mp he]
  · rw [List.map_append, List.nodup_append]
    refine ⟨h.nodup, List.nodup_singleton _, ?_⟩
    intro key hkey key' hkey'
    obtain ⟨entry, he, rfl⟩ := List.mem_map.mp hkey
    rw [List.mem_singleton.mp hkey']
    exact hnew entry he
  · intro entry he
    rcases List.mem_append.mp he with he | he
    · rw [latest_cons_other fun haddr => hnew entry he ((h.key_iff he).mpr haddr)]
      exact h.sound entry he
    · rw [List.mem_singleton.mp he]
      exact ⟨t, latest_cons_self, rfl, ht⟩
  · intro b τ hτ hlive
    by_cases hb : b = a
    · exact ⟨_, List.mem_append_right _ (List.mem_singleton_self _), hb.symm⟩
    · rw [latest_cons_other hb] at hτ
      obtain ⟨entry, he, haddr⟩ := h.complete b τ hτ hlive
      exact ⟨entry, List.mem_append_left _ he, haddr⟩

theorem Table.register (h : Table timeout swept heard clients) (ht : swept < t + timeout) :
    Table timeout swept (⟨a, t⟩ :: heard) (register (ellapsedMs t) a clients) := by
  rw [AudioStreamServer.register]
  cases hfind : clients.find? (·.1 == clientKey a) with
  | none =>
      refine h.insert ht fun entry he hkey => ?_
      exact absurd (List.find?_eq_none.mp hfind entry he) (by simp [hkey])
  | some entry =>
      have hkey : entry.1 = clientKey a := by simpa using List.find?_some hfind
      exact h.refresh ht (List.mem_of_find?_eq_some hfind) hkey

theorem Table.drain (arrivals : List Arrival) (h : Table timeout swept heard clients) (hpos : 0 < timeout)
    (htimes : ∀ d ∈ arrivals, swept ≤ d.time) :
    Table timeout swept (arrivals.reverse ++ heard) (drain arrivals clients) := by
  induction arrivals generalizing heard clients with
  | nil => exact h
  | cons d arrivals ih =>
      have hle := htimes d (by simp)
      have hfirst : Table timeout swept (d :: heard)
          (AudioStreamServer.register (ellapsedMs d.time) d.sender clients) :=
        h.register (by omega)
      rw [List.reverse_cons, List.append_assoc]
      exact ih hfirst fun d' hd' => htimes d' (List.mem_cons_of_mem d hd')

/-- The sweep compares readings of the clock, and they tell the real times apart
because nothing in the table is older than a period. -/
theorem Table.expire {cfg : Config} {now : Nat} (h : Table cfg.clientTimeoutMs.toUInt32.toNat swept heard clients)
    (hsmall : cfg.clientTimeoutMs.toUInt32.toNat < 2 ^ 31) (hle : swept ≤ now) (hclose : now ≤ swept + 2 ^ 31)
    (hpast : ∀ d ∈ heard, d.time ≤ now) :
    Table cfg.clientTimeoutMs.toUInt32.toNat now heard (expire cfg (ellapsedMs now) clients) := by
  have hlatest {a : Address} {t : Nat} (ht : t ∈ latest heard a) : t ≤ now := by
    obtain ⟨d, hd, rfl⟩ := Option.map_eq_some_iff.mp ht
    exact hpast d (List.mem_of_find?_eq_some hd)
  have hkept {entry : UInt64 × Client} {t : Nat} (ht : t ∈ latest heard entry.2.addr)
      (hseen : entry.2.lastSeenMs = ellapsedMs t) (hlive : swept < t + cfg.clientTimeoutMs.toUInt32.toNat) :
      ellapsedMs now - entry.2.lastSeenMs < cfg.clientTimeoutMs.toUInt32 ↔
        now < t + cfg.clientTimeoutMs.toUInt32.toNat := by
    have htn := hlatest ht
    rw [UInt32.lt_iff_toNat_lt, hseen, toNat_ellapsed_sub htn (by omega)]
    omega
  refine ⟨?_, ?_, ?_, ?_⟩
  · exact fun entry he => h.keyed entry (mem_expire.mp he).1
  · exact h.nodup.sublist ((expire_sublist cfg (ellapsedMs now) clients).map Prod.fst)
  · intro entry he
    obtain ⟨hmem, hlt⟩ := mem_expire.mp he
    obtain ⟨t, ht, hseen, hlive⟩ := h.sound entry hmem
    exact ⟨t, ht, hseen, (hkept ht hseen hlive).mp hlt⟩
  · intro b t ht hlt
    obtain ⟨entry, he, rfl⟩ := h.complete b t ht (by omega)
    obtain ⟨t', ht', hseen, hlive⟩ := h.sound entry he
    rw [Option.mem_unique ht ht'] at hlt
    exact ⟨entry, mem_expire.mpr ⟨he, (hkept ht' hseen hlive).mpr hlt⟩, rfl⟩

theorem Table.addresses_nodup (h : Table timeout swept heard clients) : (clients.map (·.2.addr)).Nodup := by
  have hkeys : clients.map Prod.fst = (clients.map (·.2.addr)).map clientKey := by
    rw [List.map_map]
    exact List.map_congr_left h.keyed
  have hnodup := h.nodup
  rw [hkeys] at hnodup
  exact hnodup.of_map

/-- Broadcast number n: packets with that number and one payload, to different addresses. -/
structure Numbered (n : Nat) (sends : List (Address × List UInt8)) : Prop where
  packet : ∃ payload, ∀ d ∈ sends, d.2 = putBe32 (UInt32.ofNat n) ++ payload
  once : (sends.map Prod.fst).Nodup

structure Inv (cfg : Config) (s : Server) (past : Past) : Prop where
  table : Table cfg.clientTimeoutMs.toUInt32.toNat past.swept past.heard s.clients
  past : ∀ d ∈ past.heard, d.time ≤ past.swept
  sequence : s.sequence = UInt32.ofNat s.sent.length
  sent : ∀ n sends, s.sent.reverse[n]? = some sends → Numbered n sends

variable {cfg : Config} {s : Server} {past : Past}

theorem inv_poll {arrivals : List Arrival} {now : Nat} (h : Inv cfg s past)
    (hpos : 0 < cfg.clientTimeoutMs.toUInt32.toNat) (hsmall : cfg.clientTimeoutMs.toUInt32.toNat < 2 ^ 31)
    (hok : SweepsInTime (s, past) (.poll arrivals now)) :
    Inv cfg (pollClients cfg arrivals now s) ⟨arrivals.reverse ++ past.heard, now⟩ := by
  obtain ⟨-, htimes, hle, hclose⟩ := hok
  have hpast : ∀ d ∈ arrivals.reverse ++ past.heard, d.time ≤ now := by
    intro d hd
    rcases List.mem_append.mp hd with hd | hd
    · exact (htimes d (List.mem_reverse.mp hd)).2
    · exact Nat.le_trans (h.past d hd) hle
  have hdrained := h.table.drain arrivals hpos fun d hd => (htimes d hd).1
  exact ⟨hdrained.expire hsmall hle hclose hpast, hpast, h.sequence, h.sent⟩

theorem broadcast_cases (payload : Option (List UInt8)) (s : Server) :
    broadcast payload s = s ∨ ∃ bytes, broadcast payload s =
      { s with
        sequence := s.sequence + 1
        sent := s.clients.map (fun entry => (entry.2.addr, putBe32 s.sequence ++ bytes)) :: s.sent } := by
  cases payload with
  | none => exact .inl rfl
  | some bytes =>
      rw [broadcast]
      split
      · exact .inl rfl
      · split
        · exact .inl rfl
        · exact .inr ⟨bytes, rfl⟩

theorem inv_broadcast (payload : Option (List UInt8)) (h : Inv cfg s past) :
    Inv cfg (broadcast payload s) past := by
  rcases broadcast_cases payload s with heq | ⟨bytes, heq⟩
  · rw [heq]
    exact h
  · rw [heq]
    refine ⟨h.table, h.past, ?_, ?_⟩
    · rw [h.sequence, List.length_cons, UInt32.ofNat_add]
      rfl
    · intro n sends hn
      rw [List.reverse_cons] at hn
      rcases Nat.lt_or_ge n s.sent.reverse.length with hlt | hge
      · rw [List.getElem?_append_left hlt] at hn
        exact h.sent n sends hn
      · rw [List.getElem?_append_right hge, List.getElem?_singleton, Option.ite_none_right_eq_some] at hn
        obtain ⟨hzero, hsends⟩ := hn
        have hlen : n = s.sent.length := by
          rw [List.length_reverse] at hge hzero
          omega
        cases hsends
        refine ⟨⟨bytes, ?_⟩, ?_⟩
        · intro d hd
          obtain ⟨entry, -, rfl⟩ := List.mem_map.mp hd
          rw [h.sequence, hlen]
        · rw [List.map_map]
          exact h.table.addresses_nodup

theorem inv_step {t t' : Server × Past} {act : Action} (hpos : 0 < cfg.clientTimeoutMs.toUInt32.toNat)
    (hsmall : cfg.clientTimeoutMs.toUInt32.toNat < 2 ^ 31) (h : Inv cfg t.1 t.2) (hok : SweepsInTime t act)
    (hs : observed (step cfg) notePast t act = some t') : Inv cfg t'.1 t'.2 := by
  obtain ⟨s, past⟩ := t
  obtain ⟨s', past'⟩ := t'
  obtain ⟨hstep, hnote⟩ := observed_eq_some.mp hs
  simp only at h hstep hnote ⊢
  subst hnote
  cases act with
  | poll arrivals now =>
      cases hstep
      exact inv_poll h hpos hsmall hok
  | broadcast payload =>
      cases hstep
      exact inv_broadcast payload h

def headersTo (a : Address) (sent : List (List (Address × List UInt8))) : List (List UInt8) :=
  sent.flatMap fun sends => (sends.filter (·.1 == a)).map (·.2.take headerBytes)

theorem Numbered.header {n : Nat} {sends : List (Address × List UInt8)} (h : Numbered n sends)
    (ha : a ∈ sends.map Prod.fst) :
    (sends.filter (·.1 == a)).map (·.2.take headerBytes) = [putBe32 (UInt32.ofNat n)] := by
  obtain ⟨payload, hpacket⟩ := h.packet
  obtain ⟨d, hd, rfl⟩ := List.mem_map.mp ha
  obtain ⟨before, after, rfl⟩ := List.append_of_mem hd
  have hnodup := h.once
  rw [List.map_append, List.map_cons, List.nodup_middle, List.nodup_cons, ← List.map_append] at hnodup
  have hother : ∀ d' ∈ before ++ after, (d'.1 == d.1) = false := by
    intro d' hd'
    rw [beq_eq_false_iff_ne]
    intro heq
    exact hnodup.1 (List.mem_map.mpr ⟨d', hd', heq⟩)
  have hbefore : before.filter (·.1 == d.1) = [] :=
    List.filter_eq_nil_iff.mpr fun d' hd' => by simp [hother d' (List.mem_append_left _ hd')]
  have hafter : after.filter (·.1 == d.1) = [] :=
    List.filter_eq_nil_iff.mpr fun d' hd' => by simp [hother d' (List.mem_append_right _ hd')]
  rw [List.filter_append, hbefore, List.filter_cons_of_pos (by simp), hafter, List.nil_append, List.map_singleton,
    hpacket d hd]
  rfl

theorem Inv.no_gap (h : Inv cfg s past) (a : Address) (before mid after : List (List (Address × List UInt8)))
    (hsent : s.sent.reverse = before ++ mid ++ after) (hmid : ∀ sends ∈ mid, a ∈ sends.map Prod.fst) :
    headersTo a mid = (List.range mid.length).map fun i => putBe32 (UInt32.ofNat (before.length + i)) := by
  induction mid generalizing before with
  | nil => rfl
  | cons sends mid ih =>
      have hfirst : Numbered before.length sends := by
        refine h.sent before.length sends ?_
        rw [hsent]
        simp
      have hrest := ih (before ++ [sends]) (by rw [hsent]; simp)
        fun sends' h' => hmid sends' (List.mem_cons_of_mem _ h')
      rw [headersTo] at hrest
      rw [headersTo, List.flatMap_cons, hrest, hfirst.header (hmid sends List.mem_cons_self), List.length_cons,
        List.range_succ_eq_map, List.map_cons, List.map_map]
      simp only [List.length_append, List.length_singleton, Nat.add_zero, List.singleton_append, List.cons.injEq,
        true_and]
      apply List.map_congr_left
      intro i _
      simp only [Function.comp_apply, Nat.add_assoc, Nat.add_comm 1 i]

theorem toInt_timeout (hpos : 0 < cfg.clientTimeoutMs) :
    (cfg.clientTimeoutMs.toUInt32.toNat : Int) = cfg.clientTimeoutMs.toInt ∧
      0 < cfg.clientTimeoutMs.toUInt32.toNat ∧ cfg.clientTimeoutMs.toUInt32.toNat < 2 ^ 31 := by
  have hint : 0 < cfg.clientTimeoutMs.toInt := Int32.lt_iff_toInt_lt.mp hpos
  have hlt : cfg.clientTimeoutMs.toInt < 2 ^ 31 := cfg.clientTimeoutMs.toInt_lt
  have hcast : cfg.clientTimeoutMs.toUInt32.toNat = cfg.clientTimeoutMs.toInt.toNat :=
    Int32.toNat_toUInt32_of_le (Int32.le_of_lt hpos)
  omega

theorem Inv.live_iff (h : Inv cfg s past) (hpos : 0 < cfg.clientTimeoutMs) (a : Address) :
    Live cfg past a ↔ a ∈ s.clients.map (·.2.addr) := by
  obtain ⟨hcast, -, -⟩ := toInt_timeout hpos
  constructor
  · rintro ⟨t, ht, hlt⟩
    obtain ⟨entry, he, rfl⟩ := h.table.complete a t ht (by omega)
    exact List.mem_map_of_mem he
  · intro ha
    obtain ⟨entry, he, rfl⟩ := List.mem_map.mp ha
    obtain ⟨t, ht, -, hlt⟩ := h.table.sound entry he
    exact ⟨t, ht, by omega⟩

theorem inv_start (cfg : Config) : Inv cfg start ⟨[], 0⟩ := by
  refine ⟨⟨?_, ?_, ?_, ?_⟩, ?_, rfl, ?_⟩
  · simp [start]
  · simp [start]
  · simp [start]
  · simp [latest]
  · simp
  · simp [start]

/-- Fan-out serves exactly the live subscribers: after every run whose sweeps are in
time, the table has one entry for each sender heard within the timeout before the last
sweep and no other; a broadcast sends one packet to each entry or nothing at all; and
the packets are numbered one after the other, so that an address which is in the table
for some broadcasts in a row is sent consecutive numbers. -/
theorem fan_out_serves_live_subscribers (cfg : Config) (hpos : 0 < cfg.clientTimeoutMs) (acts : List Action)
    (s : Server) (past : Past)
    (h : Run (observed (step cfg) notePast) SweepsInTime (start, ⟨[], 0⟩) acts (s, past)) :
    (∀ a, (s.clients.map (·.2.addr)).count a = if Live cfg past a then 1 else 0) ∧
    (∀ payload, broadcast payload s = s ∨ ∃ packet,
      (broadcast payload s).sent = s.clients.map (fun entry => (entry.2.addr, packet)) :: s.sent) ∧
    (∀ n sends, s.sent.reverse[n]? = some sends →
      ∃ payload, ∀ d ∈ sends, d.2 = putBe32 (UInt32.ofNat n) ++ payload) ∧
    ∀ a before mid after, s.sent.reverse = before ++ mid ++ after → (∀ sends ∈ mid, a ∈ sends.map Prod.fst) →
      headersTo a mid = (List.range mid.length).map fun i => putBe32 (UInt32.ofNat (before.length + i)) := by
  obtain ⟨-, hpos', hsmall⟩ := toInt_timeout hpos
  have hinv := h.invariant (fun t => Inv cfg t.1 t.2) (inv_start cfg)
    fun _ _ _ hk hok hs => inv_step hpos' hsmall hk hok hs
  refine ⟨?_, ?_, fun n sends hn => (hinv.sent n sends hn).packet, hinv.no_gap⟩
  · intro a
    split
    · rename_i hlive
      exact List.count_eq_one_of_mem hinv.table.addresses_nodup ((hinv.live_iff hpos a).mp hlive)
    · rename_i hdead
      exact List.count_eq_zero_of_not_mem fun ha => hdead ((hinv.live_iff hpos a).mpr ha)
  · intro payload
    refine (broadcast_cases payload s).imp_right ?_
    rintro ⟨bytes, heq⟩
    exact ⟨putBe32 s.sequence ++ bytes, by rw [heq]⟩

def acrossWrap : List Action :=
  [.poll [] 2147483648, .poll [⟨⟨1, 2⟩, 4294967000⟩, ⟨⟨3, 4⟩, 4294967100⟩] 4294967200, .broadcast (some [7]),
    .poll [⟨⟨1, 2⟩, 4294970000⟩] 4294970000, .broadcast (some [8]), .poll [] 4294977200, .broadcast (some [9])]

theorem acrossWrap_served :
    ∃ s past, Run (observed (step ⟨10000⟩) notePast) SweepsInTime (start, ⟨[], 0⟩) acrossWrap (s, past) ∧
      Live ⟨10000⟩ past ⟨1, 2⟩ ∧ ¬ Live ⟨10000⟩ past ⟨3, 4⟩ ∧
      (s.clients.map (·.2.addr)).count ⟨1, 2⟩ = 1 ∧ (s.clients.map (·.2.addr)).count ⟨3, 4⟩ = 0 ∧
      headersTo ⟨1, 2⟩ s.sent.reverse = [[0, 0, 0, 0], [0, 0, 0, 1], [0, 0, 0, 2]] := by
  obtain ⟨⟨s, past⟩, hrun, hview⟩ := run_of_exec_map (observed (step ⟨10000⟩) notePast) SweepsInTime
    (start, ⟨[], 0⟩) acrossWrap (fun t => (t.2, t.1.sent.reverse.map (·.map Prod.fst)))
    (⟨[⟨⟨1, 2⟩, 4294970000⟩, ⟨⟨3, 4⟩, 4294967100⟩, ⟨⟨1, 2⟩, 4294967000⟩], 4294977200⟩,
      [[⟨1, 2⟩, ⟨3, 4⟩], [⟨1, 2⟩, ⟨3, 4⟩], [⟨1, 2⟩]]) (by decide +kernel)
  obtain ⟨hpast, hsent⟩ := Prod.mk.inj hview
  simp only at hpast hsent
  obtain ⟨hcount, -, -, hgap⟩ := fan_out_serves_live_subscribers ⟨10000⟩ (by decide) acrossWrap s past hrun
  have hlive : Live ⟨10000⟩ past ⟨1, 2⟩ := by
    rw [hpast]
    decide
  have hdead : ¬ Live ⟨10000⟩ past ⟨3, 4⟩ := by
    rw [hpast]
    decide
  have hlen : s.sent.reverse.length = 3 := by simpa using congrArg List.length hsent
  refine ⟨s, past, hrun, hlive, hdead, by rw [hcount, if_pos hlive], by rw [hcount, if_neg hdead], ?_⟩
  rw [hgap ⟨1, 2⟩ [] s.sent.reverse [] (by simp) ?_, hlen]
  · rfl
  · intro sends hsends
    have hmem : sends.map Prod.fst ∈ s.sent.reverse.map (·.map Prod.fst) := List.mem_map_of_mem hsends
    rw [hsent] at hmem
    revert hmem
    generalize sends.map Prod.fst = addresses
    simp only [List.mem_cons, List.not_mem_nil, or_false]
    rintro (rfl | rfl | rfl) <;> decide

end Cwsd.AudioSubscribers

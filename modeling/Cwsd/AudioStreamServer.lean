import Mathlib.Data.List.Basic
import Mathlib.Data.Nat.ModEq

namespace Cwsd.AudioStreamServer

def headerBytes : Nat := 4

def maxPacket : Nat := 1500

structure Address where
  addr : UInt32
  port : UInt16
  deriving DecidableEq, Repr

def putBe32 (v : UInt32) : List UInt8 :=
  [(v >>> 24).toUInt8, (v >>> 16).toUInt8, (v >>> 8).toUInt8, v.toUInt8]

def clientKey (a : Address) : UInt64 := (a.addr.toUInt64 <<< 16) ||| a.port.toUInt64

structure Client where
  addr : Address
  lastSeenMs : UInt32
  deriving DecidableEq, Repr

/-- The entries of the unordered map, in some order. -/
abbrev Clients := List (UInt64 × Client)

structure Config where
  clientTimeoutMs : Int32
  deriving DecidableEq, Repr

/-- The subscriber table and the sequence number of audio_stream_server. For each
broadcast that got as far as sending, newest first, what was sent to whom is kept
beside them and read by nothing. -/
structure Server where
  clients : Clients
  sequence : UInt32
  sent : List (List (Address × List UInt8))
  deriving DecidableEq, Repr

def start : Server := ⟨[], 0, []⟩

def ellapsedMs (t : Nat) : UInt32 := UInt32.ofNat t

def refresh (key : UInt64) (now : UInt32) (clients : Clients) : Clients :=
  clients.map fun entry => if entry.1 = key then (entry.1, { entry.2 with lastSeenMs := now }) else entry

/-- One datagram of the drain: its sender is new or refreshed. -/
def register (now : UInt32) (sender : Address) (clients : Clients) : Clients :=
  match clients.find? (·.1 == clientKey sender) with
  | none => clients ++ [(clientKey sender, ⟨sender, now⟩)]
  | some _ => refresh (clientKey sender) now clients

/-- The expiry loop, which erases at the iterator and goes on. -/
def expire (cfg : Config) (now : UInt32) : Clients → Clients
  | [] => []
  | entry :: rest =>
      if cfg.clientTimeoutMs.toUInt32 ≤ now - entry.2.lastSeenMs then expire cfg now rest
      else entry :: expire cfg now rest

structure Arrival where
  sender : Address
  time : Nat
  deriving DecidableEq, Repr

def drain (arrivals : List Arrival) (clients : Clients) : Clients :=
  arrivals.foldl (fun clients d => register (ellapsedMs d.time) d.sender clients) clients

def pollClients (cfg : Config) (arrivals : List Arrival) (now : Nat) (s : Server) : Server :=
  { s with clients := expire cfg (ellapsedMs now) (drain arrivals s.clients) }

/-- A payload that is none stands for the null pointer. -/
def broadcast (payload : Option (List UInt8)) (s : Server) : Server :=
  match payload with
  | none => s
  | some bytes =>
      if s.clients.isEmpty || bytes.length == 0 then s
      else if maxPacket < headerBytes + bytes.length then s
      else
        let packet := putBe32 s.sequence ++ bytes
        { s with
          sequence := s.sequence + 1
          sent := s.clients.map (fun entry => (entry.2.addr, packet)) :: s.sent }

inductive Action
  | poll (arrivals : List Arrival) (now : Nat)
  | broadcast (payload : Option (List UInt8))
  deriving DecidableEq, Repr

def step (cfg : Config) (s : Server) : Action → Option Server
  | .poll arrivals now => some (pollClients cfg arrivals now s)
  | .broadcast payload => some (broadcast payload s)

theorem toNat_clientKey (a : Address) : (clientKey a).toNat = a.addr.toNat * 2 ^ 16 + a.port.toNat := by
  have haddr := a.addr.toNat_lt
  have hport : a.port.toNat < 2 ^ 16 := a.port.toNat_lt
  have hshift : (a.addr.toUInt64 <<< 16).toNat = a.addr.toNat <<< 16 := by
    rw [UInt64.toNat_shiftLeft, UInt32.toNat_toUInt64, Nat.shiftLeft_eq]
    simp only [UInt64.reduceToNat, Nat.reduceMod, Nat.reducePow]
    omega
  rw [clientKey, UInt64.toNat_or, hshift, UInt16.toNat_toUInt64, ← Nat.shiftLeft_add_eq_or_of_lt hport,
    Nat.shiftLeft_eq]

theorem clientKey_injective : Function.Injective clientKey := by
  intro a b h
  have hkey : a.addr.toNat * 2 ^ 16 + a.port.toNat = b.addr.toNat * 2 ^ 16 + b.port.toNat := by
    rw [← toNat_clientKey, ← toNat_clientKey, h]
  have ha : a.port.toNat < 2 ^ 16 := a.port.toNat_lt
  have hb : b.port.toNat < 2 ^ 16 := b.port.toNat_lt
  obtain ⟨addr, port⟩ := a
  obtain ⟨addr', port'⟩ := b
  simp only at hkey ha hb
  rw [Address.mk.injEq, ← UInt32.toNat_inj, ← UInt16.toNat_inj]
  omega

theorem toNat_ellapsed_sub {t now : Nat} (hle : t ≤ now) (hclose : now - t < 2 ^ 32) :
    (ellapsedMs now - ellapsedMs t).toNat = now - t := by
  rw [UInt32.toNat_sub, ellapsedMs, ellapsedMs, UInt32.toNat_ofNat', UInt32.toNat_ofNat']
  omega

theorem mem_expire {cfg : Config} {now : UInt32} {clients : Clients} {entry : UInt64 × Client} :
    entry ∈ expire cfg now clients ↔
      entry ∈ clients ∧ now - entry.2.lastSeenMs < cfg.clientTimeoutMs.toUInt32 := by
  induction clients with
  | nil => simp [expire]
  | cons first rest ih =>
      rw [expire]
      split
      · rename_i hold
        rw [ih, List.mem_cons]
        constructor
        · exact fun h => ⟨.inr h.1, h.2⟩
        · rintro ⟨rfl | hmem, hlt⟩
          · exact absurd hold (UInt32.not_le.mpr hlt)
          · exact ⟨hmem, hlt⟩
      · rename_i hyoung
        rw [List.mem_cons, ih, List.mem_cons]
        constructor
        · rintro (rfl | h)
          · exact ⟨.inl rfl, UInt32.not_le.mp hyoung⟩
          · exact ⟨.inr h.1, h.2⟩
        · rintro ⟨rfl | hmem, hlt⟩
          · exact .inl rfl
          · exact .inr ⟨hmem, hlt⟩

theorem expire_sublist (cfg : Config) (now : UInt32) (clients : Clients) :
    (expire cfg now clients).Sublist clients := by
  induction clients with
  | nil => exact .slnil
  | cons entry rest ih =>
      rw [expire]
      split
      · exact .cons entry ih
      · exact .cons_cons entry ih

end Cwsd.AudioStreamServer

import Mathlib.Data.List.Basic
import Mathlib.Data.Nat.Bitwise

namespace Cwsd.RemoteKeyProtocol

def magic : UInt8 := 0xC7
def version : UInt8 := 1

def flagSessionReset : UInt8 := 0x01
def keyDown : UInt8 := 0x01

structure Edge where
  tsUs : UInt64
  state : UInt8
  deriving DecidableEq, Repr

structure Packet where
  sessionId : UInt16
  flags : UInt8
  edges : List Edge
  deriving DecidableEq, Repr

def headerBytes : Nat := 6
def edgeBytes : Nat := 9
def maxEdges : Nat := 32
def maxPacketBytes : Nat := headerBytes + maxEdges * edgeBytes

def putU16 (v : UInt16) : List UInt8 := [(v >>> 8).toUInt8, v.toUInt8]

def putU64 (v : UInt64) : List UInt8 :=
  (List.range 8).map fun i => (v >>> UInt64.ofNat (56 - 8 * i)).toUInt8

def getU16 (p : List UInt8) : UInt16 := (p.getD 0 0).toUInt16 <<< 8 ||| (p.getD 1 0).toUInt16

def shiftIn (v : UInt64) (b : UInt8) : UInt64 := v <<< 8 ||| b.toUInt64

def getU64 (p : List UInt8) : UInt64 := (List.range 8).foldl (fun v i => shiftIn v (p.getD i 0)) 0

def putEdge (e : Edge) : List UInt8 := putU64 e.tsUs ++ [e.state]

/-- Edges beyond maxEdges are dropped, the oldest first. -/
def encode (pkt : Packet) : List UInt8 :=
  let n := if maxEdges < pkt.edges.length then maxEdges else pkt.edges.length
  let first := pkt.edges.length - n
  [magic, version, pkt.flags] ++ putU16 pkt.sessionId ++ [UInt8.ofNat n] ++
    (pkt.edges.drop first).flatMap putEdge

def getEdges : Nat → List UInt8 → List Edge
  | 0, _ => []
  | n + 1, e => ⟨getU64 e, e.getD 8 0⟩ :: getEdges n (e.drop edgeBytes)

def decode (buf : List UInt8) : Option Packet :=
  if buf.length < headerBytes ∨ buf.getD 0 0 ≠ magic ∨ buf.getD 1 0 ≠ version then none
  else
    let count := (buf.getD 5 0).toNat
    if buf.length < headerBytes + count * edgeBytes then none
    else
      some
        { flags := buf.getD 2 0
          sessionId := getU16 (buf.drop 3)
          edges := getEdges count (buf.drop headerBytes) }

theorem toNat_shiftIn {v : UInt64} (h : v.toNat < 2 ^ 56) (b : UInt8) :
    (shiftIn v b).toNat = v.toNat * 256 + b.toNat := by
  have hb : b.toNat < 2 ^ 8 := b.toNat_lt
  have hshift : (v <<< 8).toNat = v.toNat <<< 8 := by
    simp only [UInt64.toNat_shiftLeft, UInt64.reduceToNat, Nat.reduceMod]
    rw [Nat.shiftLeft_eq, Nat.mod_eq_of_lt (by omega)]
  rw [shiftIn, UInt64.toNat_or, hshift, UInt8.toNat_toUInt64, ← Nat.shiftLeft_add_eq_or_of_lt hb, Nat.shiftLeft_eq]

theorem toNat_foldl_bytes (bytes : List UInt8) (v : UInt64) (hlen : bytes.length ≤ 8)
    (hv : v.toNat < 256 ^ (8 - bytes.length)) :
    (bytes.foldl shiftIn v).toNat =
      bytes.foldl (fun n b => n * 256 + b.toNat) v.toNat := by
  induction bytes generalizing v with
  | nil => rfl
  | cons b bytes ih =>
      have hb : b.toNat < 256 := b.toNat_lt
      simp only [List.length_cons] at hlen hv
      have hpow : (256 : Nat) ^ (8 - bytes.length) = 256 ^ (8 - (bytes.length + 1)) * 256 := by
        rw [← pow_succ]
        congr 1
        omega
      have hle : (256 : Nat) ^ (8 - (bytes.length + 1)) ≤ 256 ^ 7 := Nat.pow_le_pow_right (by omega) (by omega)
      have hstep := toNat_shiftIn (v := v) (by omega) b
      rw [List.foldl_cons, List.foldl_cons, ← hstep]
      exact ih _ (by omega) (by omega)

theorem toNat_byte (v : UInt64) {s : Nat} (hs : s < 64) :
    (v >>> UInt64.ofNat s).toUInt8.toNat = v.toNat / 2 ^ s % 256 := by
  rw [UInt64.toNat_toUInt8, UInt64.toNat_shiftRight, UInt64.toNat_ofNat', Nat.shiftRight_eq_div_pow]
  congr 3
  omega

/-- The first k bytes of a big-endian number are its highest ones. -/
theorem foldl_high_bytes {v : Nat} (hv : v < 2 ^ 64) (k : Nat) (hk : k ≤ 8) :
    (List.range k).foldl (fun n i => n * 256 + v / 2 ^ (56 - 8 * i) % 256) 0 = v / 2 ^ (64 - 8 * k) := by
  induction k with
  | zero =>
      rw [List.range_zero, List.foldl_nil, Nat.div_eq_of_lt]
      simpa using hv
  | succ k ih =>
      have hpow : 2 ^ (64 - 8 * k) = 2 ^ (56 - 8 * k) * 256 := by
        rw [show 64 - 8 * k = 56 - 8 * k + 8 by omega, pow_add]
        rfl
      rw [List.range_succ, List.foldl_append, ih (by omega), List.foldl_cons, List.foldl_nil, hpow,
        ← Nat.div_div_eq_div_mul, Nat.mul_comm, Nat.div_add_mod]
      congr 2
      omega

theorem getU64_putU64 (v : UInt64) (rest : List UInt8) : getU64 (putU64 v ++ rest) = v := by
  have hfold : getU64 (putU64 v ++ rest) = (putU64 v).foldl shiftIn 0 := rfl
  have hbytes : (putU64 v).foldl (fun n b => n * 256 + b.toNat) 0 =
      (List.range 8).foldl (fun n i => n * 256 + v.toNat / 2 ^ (56 - 8 * i) % 256) 0 := by
    rw [putU64, List.foldl_map]
    apply List.foldl_ext
    intro n i _
    rw [toNat_byte v (by omega)]
  rw [hfold, ← UInt64.toNat_inj, toNat_foldl_bytes _ _ (by simp [putU64]) (by simp [putU64]), UInt64.toNat_zero,
    hbytes, foldl_high_bytes v.toNat_lt 8 (Nat.le_refl 8)]
  exact Nat.div_one _

theorem getU16_putU16 (v : UInt16) (rest : List UInt8) : getU16 (putU16 v ++ rest) = v := by
  have hb : v.toNat % 256 < 2 ^ 8 := by omega
  have hv : v.toNat < 2 ^ 16 := v.toNat_lt
  rw [← UInt16.toNat_inj]
  simp only [getU16, putU16, List.cons_append, List.nil_append, List.getD_cons_zero, List.getD_cons_succ,
    UInt16.toNat_or, UInt16.toNat_shiftLeft, UInt16.toNat_shiftRight, UInt8.toNat_toUInt16,
    UInt16.toNat_toUInt8, UInt16.reduceToNat, Nat.reduceMod, Nat.shiftRight_eq_div_pow]
  rw [Nat.mod_eq_of_lt (a := (v.toNat / 2 ^ 8 % 2 ^ 8) <<< 8) (by rw [Nat.shiftLeft_eq]; omega),
    ← Nat.shiftLeft_add_eq_or_of_lt hb, Nat.shiftLeft_eq]
  omega

theorem putEdge_length (e : Edge) : (putEdge e).length = edgeBytes := by
  simp [putEdge, putU64, edgeBytes]

theorem getEdges_putEdges (edges : List Edge) : getEdges edges.length (edges.flatMap putEdge) = edges := by
  induction edges with
  | nil => rfl
  | cons e edges ih =>
      have hdrop : (putEdge e ++ edges.flatMap putEdge).drop edgeBytes = edges.flatMap putEdge := by
        rw [← putEdge_length e, List.drop_left]
      have hts : getU64 (putEdge e ++ edges.flatMap putEdge) = e.tsUs := by
        rw [putEdge, List.append_assoc]
        exact getU64_putU64 _ _
      have hstate : (putEdge e ++ edges.flatMap putEdge).getD 8 0 = e.state := rfl
      rw [List.flatMap_cons, List.length_cons, getEdges, hdrop, ih, hts, hstate]

theorem flatMap_putEdge_length (edges : List Edge) :
    (edges.flatMap putEdge).length = edges.length * edgeBytes := by
  simp [List.length_flatMap, putEdge_length]

theorem decode_header (flags : UInt8) (sessionId : UInt16) {edges : List Edge} (h : edges.length ≤ maxEdges) :
    decode ([magic, version, flags] ++ putU16 sessionId ++ [UInt8.ofNat edges.length] ++
      edges.flatMap putEdge) = some ⟨sessionId, flags, edges⟩ := by
  have hcount : (UInt8.ofNat edges.length).toNat = edges.length := by
    rw [UInt8.toNat_ofNat']
    simp only [maxEdges] at h
    omega
  have hsession : getU16 (putU16 sessionId ++ UInt8.ofNat edges.length :: edges.flatMap putEdge) = sessionId :=
    getU16_putU16 _ _
  have hlen := flatMap_putEdge_length edges
  simp only [putU16] at hsession
  simp only [List.cons_append, List.nil_append] at hsession
  simp only [putU16, List.cons_append, List.nil_append]
  rw [decode, if_neg (by simp [headerBytes]), List.getD_cons_succ, List.getD_cons_succ, List.getD_cons_succ,
    List.getD_cons_succ, List.getD_cons_succ, List.getD_cons_zero, hcount]
  rw [if_neg (by simp only [List.length_cons, hlen, headerBytes]; omega)]
  have hdrop3 : (magic :: version :: flags :: (sessionId >>> 8).toUInt8 :: sessionId.toUInt8 ::
      UInt8.ofNat edges.length :: edges.flatMap putEdge).drop 3 =
      (sessionId >>> 8).toUInt8 :: sessionId.toUInt8 :: UInt8.ofNat edges.length :: edges.flatMap putEdge := rfl
  have hdrop6 : (magic :: version :: flags :: (sessionId >>> 8).toUInt8 :: sessionId.toUInt8 ::
      UInt8.ofNat edges.length :: edges.flatMap putEdge).drop headerBytes = edges.flatMap putEdge := rfl
  rw [hdrop3, hsession, hdrop6, getEdges_putEdges]
  rfl

/-- What the receiver decodes from an encoded packet: the freshest edges, in order. -/
theorem decode_encode (pkt : Packet) :
    decode (encode pkt) = some { pkt with edges := pkt.edges.drop (pkt.edges.length - maxEdges) } := by
  have hfirst : (pkt.edges.length - if maxEdges < pkt.edges.length then maxEdges else pkt.edges.length) =
      pkt.edges.length - maxEdges := by
    split <;> omega
  have hn : (if maxEdges < pkt.edges.length then maxEdges else pkt.edges.length) =
      (pkt.edges.drop (pkt.edges.length - maxEdges)).length := by
    rw [List.length_drop]
    split <;> omega
  simp only [encode, hfirst]
  rw [hn]
  exact decode_header pkt.flags pkt.sessionId (by rw [List.length_drop]; omega)

theorem encode_length_le (pkt : Packet) : (encode pkt).length ≤ maxPacketBytes := by
  simp only [encode, List.length_append, flatMap_putEdge_length, List.length_drop, putU16,
    List.length_cons, List.length_nil, maxPacketBytes, headerBytes, edgeBytes]
  have hn : (if maxEdges < pkt.edges.length then maxEdges else pkt.edges.length) ≤ maxEdges := by
    split <;> omega
  omega

end Cwsd.RemoteKeyProtocol

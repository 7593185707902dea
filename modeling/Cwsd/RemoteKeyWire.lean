import Cwsd.RemoteKeyProtocol

namespace Cwsd.RemoteKeyWire

open RemoteKeyProtocol

-- decode once more, with every read through the pointer a read that fails at or beyond len.

def getU16At (buf : List UInt8) (p : Nat) : Option UInt16 := do
  let high ← buf[p]?
  let low ← buf[p + 1]?
  return high.toUInt16 <<< 8 ||| low.toUInt16

def getU64At (buf : List UInt8) (p : Nat) : Option UInt64 :=
  (List.range 8).foldlM (fun v i => do return shiftIn v (← buf[p + i]?)) 0

def getEdgesAt (buf : List UInt8) : Nat → Nat → Option (List Edge)
  | 0, _ => some []
  | n + 1, e => do
      let tsUs ← getU64At buf e
      let state ← buf[e + 8]?
      let edges ← getEdgesAt buf n (e + edgeBytes)
      return ⟨tsUs, state⟩ :: edges

/-- The outer none is a read outside of the len bytes of the datagram. -/
def decodeAt (buf : List UInt8) : Option (Option Packet) := do
  if buf.length < headerBytes then return none
  if (← buf[0]?) ≠ magic then return none
  if (← buf[1]?) ≠ version then return none
  let count := (← buf[5]?).toNat
  if buf.length < headerBytes + count * edgeBytes then return none
  let flags ← buf[2]?
  let sessionId ← getU16At buf 3
  let edges ← getEdgesAt buf count headerBytes
  return some { flags, sessionId, edges }

theorem read_eq {buf : List UInt8} {i : Nat} (h : i < buf.length) : buf[i]? = some (buf.getD i 0) := by
  rw [List.getD_eq_getElem?_getD, List.getElem?_eq_getElem h, Option.getD_some]

theorem getD_drop (buf : List UInt8) (p i : Nat) : (buf.drop p).getD i 0 = buf.getD (p + i) 0 := by
  rw [List.getD_eq_getElem?_getD, List.getD_eq_getElem?_getD, List.getElem?_drop]

theorem getU16At_eq {buf : List UInt8} {p : Nat} (h : p + 2 ≤ buf.length) :
    getU16At buf p = some (getU16 (buf.drop p)) := by
  rw [getU16At, read_eq (by omega : p < buf.length), read_eq (by omega : p + 1 < buf.length), getU16,
    getD_drop, getD_drop]
  rfl

theorem foldlM_reads {buf : List UInt8} {p : Nat} (is : List Nat) (h : ∀ i ∈ is, p + i < buf.length)
    (v : UInt64) :
    is.foldlM (fun v i => do return shiftIn v (← buf[p + i]?)) v =
      some (is.foldl (fun v i => shiftIn v ((buf.drop p).getD i 0)) v) := by
  induction is generalizing v with
  | nil => rfl
  | cons i is ih =>
      rw [List.foldlM_cons, List.foldl_cons, read_eq (h i List.mem_cons_self), ← getD_drop buf p i]
      exact ih (fun j hj => h j (List.mem_cons_of_mem i hj)) _

theorem getU64At_eq {buf : List UInt8} {p : Nat} (h : p + 8 ≤ buf.length) :
    getU64At buf p = some (getU64 (buf.drop p)) := by
  apply foldlM_reads
  intro i hi
  have := List.mem_range.mp hi
  omega

theorem getEdgesAt_eq (buf : List UInt8) (n e : Nat) (h : e + n * edgeBytes ≤ buf.length) :
    getEdgesAt buf n e = some (getEdges n (buf.drop e)) := by
  induction n generalizing e with
  | zero => rfl
  | succ n ih =>
      simp only [edgeBytes] at h
      have hrest := ih (e + edgeBytes) (by simp only [edgeBytes]; omega)
      rw [getEdgesAt, getU64At_eq (by omega), read_eq (by omega : e + 8 < buf.length), hrest, getEdges,
        List.drop_drop, getD_drop]
      rfl

/-- No read of decode leaves the datagram. -/
theorem decodeAt_eq (buf : List UInt8) : decodeAt buf = some (decode buf) := by
  unfold decodeAt decode
  by_cases hlen : buf.length < headerBytes
  · simp only [hlen, true_or, if_true]
    rfl
  · have hsix : 6 ≤ buf.length := by
      simp only [headerBytes] at hlen
      omega
    have hedges := getEdgesAt_eq buf (buf.getD 5 0).toNat headerBytes
    rw [read_eq (by omega : 0 < buf.length), read_eq (by omega : 1 < buf.length),
      read_eq (by omega : 2 < buf.length), read_eq (by omega : 5 < buf.length), getU16At_eq (by omega)]
    generalize buf.getD 0 0 = b₀
    generalize buf.getD 1 0 = b₁
    generalize buf.getD 5 0 = b₅ at hedges ⊢
    by_cases hmagic : b₀ = magic
    · by_cases hversion : b₁ = version
      · by_cases hcount : buf.length < headerBytes + b₅.toNat * edgeBytes
        · simp [hlen, hmagic, hversion, hcount]
        · simp [hlen, hmagic, hversion, hcount, hedges (by omega)]
      · simp [hlen, hmagic, hversion]
    · simp [hlen, hmagic]

theorem decode_eq_some_iff (buf : List UInt8) (pkt : Packet) :
    decode buf = some pkt ↔
      (6 ≤ buf.length ∧ buf.getD 0 0 = magic ∧ buf.getD 1 0 = version ∧
        6 + 9 * (buf.getD 5 0).toNat ≤ buf.length) ∧
      pkt = ⟨getU16 (buf.drop 3), buf.getD 2 0, getEdges (buf.getD 5 0).toNat (buf.drop 6)⟩ := by
  have hheader : headerBytes = 6 := rfl
  have hedge : edgeBytes = 9 := rfl
  rw [decode]
  by_cases h : buf.length < headerBytes ∨ buf.getD 0 0 ≠ magic ∨ buf.getD 1 0 ≠ version
  · rw [if_pos h]
    constructor
    · intro hsome
      cases hsome
    · rintro ⟨⟨hlen, hmagic, hversion, -⟩, -⟩
      obtain h | h | h := h
      · omega
      · exact absurd hmagic h
      · exact absurd hversion h
  · rw [if_neg h]
    simp only [not_or, not_lt, ne_eq, not_not] at h
    by_cases hcount : buf.length < headerBytes + (buf.getD 5 0).toNat * edgeBytes
    · rw [if_pos hcount]
      rw [hheader, hedge] at hcount
      constructor
      · intro hsome
        cases hsome
      · rintro ⟨⟨-, -, -, hlong⟩, -⟩
        omega
    · rw [if_neg hcount]
      rw [hheader, hedge] at hcount
      constructor
      · intro hsome
        exact ⟨⟨h.1, h.2.1, h.2.2, by omega⟩, (Option.some.inj hsome).symm⟩
      · rintro ⟨-, rfl⟩
        rfl

theorem decode_isSome_iff (buf : List UInt8) :
    (decode buf).isSome ↔ 6 ≤ buf.length ∧ buf.getD 0 0 = magic ∧ buf.getD 1 0 = version ∧
      6 + 9 * (buf.getD 5 0).toNat ≤ buf.length := by
  rw [Option.isSome_iff_exists]
  simp only [decode_eq_some_iff, exists_and_left, exists_eq, and_true]

theorem putU64_getU64 (b₀ b₁ b₂ b₃ b₄ b₅ b₆ b₇ : UInt8) (rest : List UInt8) :
    putU64 (getU64 (b₀ :: b₁ :: b₂ :: b₃ :: b₄ :: b₅ :: b₆ :: b₇ :: rest)) =
      [b₀, b₁, b₂, b₃, b₄, b₅, b₆, b₇] := by
  have hfold : getU64 (b₀ :: b₁ :: b₂ :: b₃ :: b₄ :: b₅ :: b₆ :: b₇ :: rest) =
      [b₀, b₁, b₂, b₃, b₄, b₅, b₆, b₇].foldl shiftIn 0 := rfl
  have hvalue := toNat_foldl_bytes [b₀, b₁, b₂, b₃, b₄, b₅, b₆, b₇] 0 (by simp) (by simp)
  rw [← hfold] at hvalue
  generalize getU64 _ = v at hvalue
  simp only [List.foldl_cons, List.foldl_nil, UInt64.toNat_zero] at hvalue
  have h₀ := b₀.toNat_lt
  have h₁ := b₁.toNat_lt
  have h₂ := b₂.toNat_lt
  have h₃ := b₃.toNat_lt
  have h₄ := b₄.toNat_lt
  have h₅ := b₅.toNat_lt
  have h₆ := b₆.toNat_lt
  have h₇ := b₇.toNat_lt
  simp only [putU64, List.range, List.range.loop, List.map_cons, List.map_nil, List.cons.injEq, and_true]
  refine ⟨?_, ?_, ?_, ?_, ?_, ?_, ?_, ?_⟩ <;>
    (rw [← UInt8.toNat_inj, toNat_byte v (by omega)]
     simp only [Nat.reduceMul, Nat.reduceSub, Nat.reducePow]
     omega)

theorem putU16_getU16 (b₀ b₁ : UInt8) (rest : List UInt8) : putU16 (getU16 (b₀ :: b₁ :: rest)) = [b₀, b₁] := by
  have h₀ := b₀.toNat_lt
  have h₁ := b₁.toNat_lt
  have hb : b₁.toNat < 2 ^ 8 := h₁
  have hvalue : (getU16 (b₀ :: b₁ :: rest)).toNat = b₀.toNat * 256 + b₁.toNat := by
    simp only [getU16, List.getD_cons_zero, List.getD_cons_succ, UInt16.toNat_or, UInt16.toNat_shiftLeft,
      UInt8.toNat_toUInt16, UInt16.reduceToNat, Nat.reduceMod]
    rw [Nat.mod_eq_of_lt (a := b₀.toNat <<< 8) (by rw [Nat.shiftLeft_eq]; omega),
      ← Nat.shiftLeft_add_eq_or_of_lt hb, Nat.shiftLeft_eq]
  simp only [putU16, List.cons.injEq, and_true]
  constructor
  · rw [← UInt8.toNat_inj, UInt16.toNat_toUInt8, UInt16.toNat_shiftRight, hvalue]
    simp only [UInt16.reduceToNat, Nat.reduceMod, Nat.shiftRight_eq_div_pow, Nat.reducePow]
    omega
  · rw [← UInt8.toNat_inj, UInt16.toNat_toUInt8, hvalue]
    omega

theorem cons_of_le_length {n : Nat} {l : List UInt8} (h : n + 1 ≤ l.length) :
    ∃ b rest, l = b :: rest ∧ n ≤ rest.length := by
  cases l with
  | nil => simp at h
  | cons b rest => exact ⟨b, rest, rfl, by simpa using h⟩

theorem putEdge_getEdge {l : List UInt8} (h : edgeBytes ≤ l.length) :
    putEdge ⟨getU64 l, l.getD 8 0⟩ = l.take edgeBytes := by
  obtain ⟨b₀, l₁, rfl, h₁⟩ := cons_of_le_length h
  obtain ⟨b₁, l₂, rfl, h₂⟩ := cons_of_le_length h₁
  obtain ⟨b₂, l₃, rfl, h₃⟩ := cons_of_le_length h₂
  obtain ⟨b₃, l₄, rfl, h₄⟩ := cons_of_le_length h₃
  obtain ⟨b₄, l₅, rfl, h₅⟩ := cons_of_le_length h₄
  obtain ⟨b₅, l₆, rfl, h₆⟩ := cons_of_le_length h₅
  obtain ⟨b₆, l₇, rfl, h₇⟩ := cons_of_le_length h₆
  obtain ⟨b₇, l₈, rfl, h₈⟩ := cons_of_le_length h₇
  obtain ⟨state, l₉, rfl, -⟩ := cons_of_le_length h₈
  rw [putEdge, putU64_getU64]
  rfl

theorem putEdges_getEdges (n : Nat) (l : List UInt8) (h : n * edgeBytes ≤ l.length) :
    (getEdges n l).flatMap putEdge = l.take (n * edgeBytes) := by
  induction n generalizing l with
  | zero => simp [getEdges]
  | succ n ih =>
      rw [Nat.succ_mul] at h ⊢
      rw [getEdges, List.flatMap_cons, putEdge_getEdge (by omega), ih _ (by rw [List.length_drop]; omega),
        Nat.add_comm, List.take_add]

theorem getEdges_length (n : Nat) (l : List UInt8) : (getEdges n l).length = n := by
  induction n generalizing l with
  | zero => rfl
  | succ n ih => rw [getEdges, List.length_cons, ih]

theorem encode_decode {buf : List UInt8} {pkt : Packet} (h : decode buf = some pkt)
    (hlen : buf.length ≤ maxPacketBytes) : encode pkt = buf.take (6 + 9 * (buf.getD 5 0).toNat) := by
  obtain ⟨⟨hsix, hmagic, hversion, hcount⟩, rfl⟩ := (decode_eq_some_iff buf pkt).mp h
  obtain ⟨b₀, l₁, rfl, hsix₁⟩ := cons_of_le_length hsix
  obtain ⟨b₁, l₂, rfl, hsix₂⟩ := cons_of_le_length hsix₁
  obtain ⟨b₂, l₃, rfl, hsix₃⟩ := cons_of_le_length hsix₂
  obtain ⟨b₃, l₄, rfl, hsix₄⟩ := cons_of_le_length hsix₃
  obtain ⟨b₄, l₅, rfl, hsix₅⟩ := cons_of_le_length hsix₄
  obtain ⟨b₅, l₆, rfl, -⟩ := cons_of_le_length hsix₅
  simp only [List.getD_cons_zero, List.getD_cons_succ] at hmagic hversion hcount ⊢
  simp only [List.length_cons, maxPacketBytes, headerBytes, edgeBytes, maxEdges] at hlen hcount
  have hfit : ¬ maxEdges < b₅.toNat := by
    simp only [maxEdges]
    omega
  have hedges := putEdges_getEdges b₅.toNat l₆ (by simp only [edgeBytes]; omega)
  simp only [encode, getEdges_length, if_neg hfit, Nat.sub_self, List.drop_zero, List.drop_succ_cons,
    putU16_getU16, hedges, UInt8.ofNat_toNat, hmagic, hversion]
  rw [Nat.add_comm 6, Nat.mul_comm 9]
  rfl

/-- The wire format round trips over its whole domain: what is sent comes back with its freshest edges, the
receiver accepts exactly the datagrams that are as long as their count says, it reads none of them beyond
its end, and what it accepted is the encoding of what it decoded. -/
theorem wire_round_trip :
    (∀ pkt : Packet, decode (encode pkt) =
      some { pkt with edges := pkt.edges.drop (pkt.edges.length - min 32 pkt.edges.length) }) ∧
    (∀ buf : List UInt8, (decode buf).isSome ↔ 6 ≤ buf.length ∧ buf.getD 0 0 = magic ∧
      buf.getD 1 0 = version ∧ 6 + 9 * (buf.getD 5 0).toNat ≤ buf.length) ∧
    (∀ buf : List UInt8, decodeAt buf = some (decode buf)) ∧
    ∀ (buf : List UInt8) (pkt : Packet), decode buf = some pkt → buf.length ≤ maxPacketBytes →
      encode pkt = buf.take (6 + 9 * (buf.getD 5 0).toNat) := by
  refine ⟨?_, decode_isSome_iff, decodeAt_eq, fun buf pkt => encode_decode⟩
  intro pkt
  have hlast : pkt.edges.length - min 32 pkt.edges.length = pkt.edges.length - maxEdges := by
    simp only [maxEdges]
    omega
  rw [decode_encode, hlast]

/-- Bytes that follow the last edge are accepted and are not part of the packet. -/
theorem wire_round_trip_trailing :
    encode ⟨0x1234, 1, [⟨0, keyDown⟩, ⟨60000, 0⟩]⟩ =
      [0xC7, 1, 1, 0x12, 0x34, 2, 0, 0, 0, 0, 0, 0, 0, 0, 1, 0, 0, 0, 0, 0, 0, 0xEA, 0x60, 0] :=
  wire_round_trip.2.2.2
    [0xC7, 1, 1, 0x12, 0x34, 2, 0, 0, 0, 0, 0, 0, 0, 0, 1, 0, 0, 0, 0, 0, 0, 0xEA, 0x60, 0, 9, 9] _
    (by decide) (by decide)

end Cwsd.RemoteKeyWire

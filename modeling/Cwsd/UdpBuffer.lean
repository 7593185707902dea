import Cwsd.UdpServer

namespace Cwsd.UdpBuffer

open UdpServer

-- receive once more, with every access to the member buffer a step that fails outside of it.

structure Buffer where
  bytes : List UInt8
  size : bytes.length = bufferSize

namespace Buffer

def read (b : Buffer) (i : Nat) : Option UInt8 := b.bytes[i]?

def write (b : Buffer) (i : Nat) (c : UInt8) : Option Buffer :=
  if i < bufferSize then some ⟨b.bytes.set i c, by rw [List.length_set, b.size]⟩ else none

/-- recvfrom writes what fits of the datagram and leaves the rest of the buffer alone. -/
def fill (b : Buffer) (datagram : List UInt8) : Buffer where
  bytes := datagram.take bufferSize ++ b.bytes.drop (datagram.take bufferSize).length
  size := by
    rw [List.length_append, List.length_drop, b.size, List.length_take]
    omega

end Buffer

def trimAt (b : Buffer) : Nat → Option Nat
  | 0 => some 0
  | 1 => some 1
  | n + 2 => do if isTrailing (← b.read (n + 1)) then trimAt b (n + 1) else return n + 2

/-- What receive leaves in message, and the buffer; none is an access outside of it. -/
def receiveAt (b : Buffer) (arrived : Option (List UInt8)) : Option (Option (List UInt8) × Buffer) :=
  match arrived with
  | none => some (none, b)
  | some datagram => do
      let b := b.fill datagram
      let n := min datagram.length bufferSize
      if 0 < n then
        let n ← trimAt b n
        let b ← b.write n 0
        let message ← (List.range (n + 1)).mapM b.read
        return (some message, b)
      else return (none, b)

/-- The message is the payload without its longest suffix of CR, LF and spaces, which never
takes the first byte, and with a NUL behind it. -/
def TailTrimmed (payload message : List UInt8) : Prop :=
  ∃ kept cut, payload = kept ++ cut ∧ message = kept ++ [0] ∧ kept ≠ [] ∧ (∀ c ∈ cut, isTrailing c = true) ∧
    (kept.length = 1 ∨ ∀ c ∈ kept.getLast?, isTrailing c = false)

/-- The datagram fills the buffer up to a byte that is not trimmed. -/
def Overfull (datagram : List UInt8) : Prop :=
  bufferSize ≤ datagram.length ∧ isTrailing (datagram.getD (bufferSize - 1) 0) = false

instance (datagram : List UInt8) : Decidable (Overfull datagram) := inferInstanceAs (Decidable (_ ∧ _))

theorem trimLength_le (buffer : List UInt8) (n : Nat) : trimLength buffer n ≤ n := by
  induction n with
  | zero => exact Nat.le_refl 0
  | succ n ih =>
      cases n with
      | zero => exact Nat.le_refl 1
      | succ n =>
          rw [trimLength]
          split
          · omega
          · exact Nat.le_refl _

theorem trimLength_prefix {xs ys : List UInt8} {n : Nat} (h : ∀ i < n, xs.getD i 0 = ys.getD i 0) :
    trimLength xs n = trimLength ys n := by
  induction n with
  | zero => rfl
  | succ n ih =>
      cases n with
      | zero => rfl
      | succ n => rw [trimLength, trimLength, h (n + 1) (by omega), ih fun i hi => h i (by omega)]

theorem trimAt_eq (b : Buffer) {n : Nat} (hn : n ≤ bufferSize) : trimAt b n = some (trimLength b.bytes n) := by
  induction n with
  | zero => rfl
  | succ n ih =>
      cases n with
      | zero => rfl
      | succ n =>
          have hlt : n + 1 < b.bytes.length := by
            rw [b.size]
            omega
          have hread : b.read (n + 1) = some (b.bytes.getD (n + 1) 0) := by
            rw [Buffer.read, List.getD_eq_getElem?_getD, List.getElem?_eq_getElem hlt, Option.getD_some]
          rw [trimAt, trimLength, hread]
          simp only [Option.bind_eq_bind, Option.bind_some]
          split
          · exact ih (by omega)
          · rfl

theorem getD_fill (b : Buffer) (datagram : List UInt8) {i : Nat} (hi : i < min datagram.length bufferSize) :
    (b.fill datagram).bytes.getD i 0 = (datagram.take bufferSize).getD i 0 := by
  have hlt : i < (datagram.take bufferSize).length := by
    rw [List.length_take]
    omega
  simp only [Buffer.fill, List.getD_eq_getElem?_getD, List.getElem?_append_left hlt]

theorem trimAt_fill (b : Buffer) (datagram : List UInt8) :
    trimAt (b.fill datagram) (min datagram.length bufferSize) =
      some (trimLength (datagram.take bufferSize) (min datagram.length bufferSize)) := by
  rw [trimAt_eq _ (Nat.min_le_right _ _), trimLength_prefix fun i hi => getD_fill b datagram hi]

theorem trimLength_lt_iff (datagram : List UInt8) :
    trimLength (datagram.take bufferSize) (min datagram.length bufferSize) < bufferSize ↔ ¬ Overfull datagram := by
  have hle := trimLength_le (datagram.take bufferSize) (min datagram.length bufferSize)
  by_cases hfull : bufferSize ≤ datagram.length
  · rw [Nat.min_eq_right hfull] at hle ⊢
    have hlast : (datagram.take bufferSize).getD (bufferSize - 1) 0 = datagram.getD (bufferSize - 1) 0 := by
      rw [List.getD_eq_getElem?_getD, List.getElem?_take_of_lt (by decide), ← List.getD_eq_getElem?_getD]
    have hstep : trimLength (datagram.take bufferSize) bufferSize =
        if isTrailing (datagram.getD (bufferSize - 1) 0) then
          trimLength (datagram.take bufferSize) (bufferSize - 1)
        else bufferSize := by
      rw [← hlast]
      rfl
    rw [hstep, Overfull]
    cases htrail : isTrailing (datagram.getD (bufferSize - 1) 0) with
    | true =>
        have hshorter := trimLength_le (datagram.take bufferSize) (bufferSize - 1)
        simp only [if_true, Bool.true_eq_false, and_false, not_false_eq_true, iff_true]
        exact Nat.lt_of_le_of_lt hshorter (by decide)
    | false => simp [hfull]
  · rw [Nat.min_eq_left (Nat.le_of_not_le hfull)] at hle ⊢
    have hno : ¬ Overfull datagram := fun h => hfull h.1
    simp only [hno, not_false_eq_true, iff_true]
    omega

theorem read_range (b : Buffer) {n : Nat} (hn : n ≤ bufferSize) :
    (List.range n).mapM b.read = some (b.bytes.take n) := by
  induction n with
  | zero => rfl
  | succ n ih =>
      have hlt : n < b.bytes.length := by
        rw [b.size]
        omega
      rw [List.range_succ, List.mapM_append, ih (by omega), List.take_add_one]
      simp [Buffer.read, List.getElem?_eq_getElem hlt]

theorem receiveAt_eq (b : Buffer) {datagram : List UInt8} (h : ¬ Overfull datagram) :
    ∃ b', receiveAt b (some datagram) = some (receive (some datagram), b') := by
  have hroom := (trimLength_lt_iff datagram).mpr h
  simp only [receiveAt, receive, Option.getD_some, List.length_take, Nat.min_comm bufferSize]
  split
  · rename_i hpos
    rw [trimAt_fill]
    have hle := trimLength_le (datagram.take bufferSize) (min datagram.length bufferSize)
    generalize trimLength (datagram.take bufferSize) (min datagram.length bufferSize) = n at hroom hle
    have hfill : (b.fill datagram).bytes.take n = (datagram.take bufferSize).take n := by
      rw [Buffer.fill, List.take_append_of_le_length]
      rw [List.length_take]
      omega
    simp only [Option.bind_eq_bind, Option.bind_some, Buffer.write, if_pos hroom]
    rw [read_range _ hroom]
    refine ⟨_, congrArg some (Prod.ext (congrArg some ?_) rfl)⟩
    have hsize : n < (b.fill datagram).bytes.length := by
      rw [(b.fill datagram).size]
      exact hroom
    rw [List.take_add_one, List.take_set_of_le (Nat.le_refl n), hfill]
    simp [hsize]
  · exact ⟨b.fill datagram, rfl⟩

theorem receiveAt_overfull (b : Buffer) {datagram : List UInt8} (h : Overfull datagram) :
    receiveAt b (some datagram) = none := by
  have hno : ¬ trimLength (datagram.take bufferSize) (min datagram.length bufferSize) < bufferSize :=
    fun hlt => (trimLength_lt_iff datagram).mp hlt h
  have hpos : 0 < min datagram.length bufferSize := by
    rw [Nat.min_eq_right h.1]
    decide
  simp only [receiveAt, if_pos hpos, trimAt_fill]
  simp [Buffer.write, hno]

theorem tailTrimmed_trimLength (payload : List UInt8) {n : Nat} (hpos : 0 < n) (hn : n ≤ payload.length) :
    TailTrimmed (payload.take n) (payload.take (trimLength payload n) ++ [0]) := by
  induction n with
  | zero => cases hpos
  | succ n ih =>
      cases n with
      | zero =>
          have hlen : (payload.take 1).length = 1 := by
            rw [List.length_take]
            omega
          exact ⟨payload.take 1, [], by simp, rfl, List.ne_nil_of_length_pos (by omega), by simp, .inl hlen⟩
      | succ n =>
          have hlast : payload.take (n + 2) = payload.take (n + 1) ++ [payload.getD (n + 1) 0] := by
            rw [List.take_add_one, List.getD_eq_getElem?_getD, List.getElem?_eq_getElem (by omega)]
            rfl
          rw [trimLength]
          split
          · rename_i htrail
            obtain ⟨kept, cut, hpayload, hmessage, hne, hcut, hkept⟩ := ih (by omega) (by omega)
            refine ⟨kept, cut ++ [payload.getD (n + 1) 0], ?_, hmessage, hne, ?_, hkept⟩
            · rw [hlast, hpayload, List.append_assoc]
            · intro c hc
              rcases List.mem_append.mp hc with hc | hc
              · exact hcut c hc
              · rw [List.mem_singleton.mp hc]
                exact htrail
          · rename_i hkeep
            refine ⟨payload.take (n + 2), [], by simp, rfl, ?_, by simp, .inr ?_⟩
            · intro hnil
              rw [hlast] at hnil
              simp at hnil
            · intro c hc
              rw [hlast, List.getLast?_concat, Option.mem_some_iff] at hc
              rw [← hc]
              exact Bool.eq_false_iff.mpr hkeep

theorem receive_trimmed {datagram message : List UInt8} (h : receive (some datagram) = some message) :
    TailTrimmed (datagram.take bufferSize) message := by
  simp only [receive, Option.getD_some] at h
  split at h
  · rename_i hpos
    cases h
    have htrimmed := tailTrimmed_trimLength (datagram.take bufferSize) hpos (Nat.le_refl _)
    rwa [List.take_length] at htrimmed
  · cases h

/-- Whatever the buffer held, every access of receive is in it and a message it takes is the
payload with its tail trimmed exactly when the datagram does not fill the buffer up to a byte
that stays. -/
theorem receive_in_buffer_iff (b : Buffer) (datagram : List UInt8) :
    (∃ result, receiveAt b (some datagram) = some result ∧
      ∀ message ∈ result.1, TailTrimmed (datagram.take bufferSize) message) ↔ ¬ Overfull datagram := by
  constructor
  · rintro ⟨result, hresult, -⟩ hfull
    rw [receiveAt_overfull b hfull] at hresult
    cases hresult
  · intro hno
    obtain ⟨b', hresult⟩ := receiveAt_eq b hno
    exact ⟨_, hresult, fun message hm => receive_trimmed hm⟩

theorem longText_outside :
    ¬ ∃ result, receiveAt ⟨List.replicate bufferSize 0, List.length_replicate⟩
        (some (List.replicate 1024 'E'.toUInt8)) = some result ∧
      ∀ message ∈ result.1, TailTrimmed ((List.replicate 1024 'E'.toUInt8).take bufferSize) message := by
  have hfull : Overfull (List.replicate 1024 'E'.toUInt8) := by
    refine ⟨?_, ?_⟩
    · rw [List.length_replicate]
      decide
    · rw [List.getD_eq_getElem?_getD, List.getElem?_replicate, if_pos (by decide)]
      decide
  rintro ⟨result, hresult, -⟩
  rw [receiveAt_overfull _ hfull] at hresult
  cases hresult

end Cwsd.UdpBuffer

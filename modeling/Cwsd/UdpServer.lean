import Mathlib.Data.List.Basic

namespace Cwsd.UdpServer

def bufferSize : Nat := 1024

def isTrailing (c : UInt8) : Bool := c == '\n'.toUInt8 || c == '\r'.toUInt8 || c == ' '.toUInt8

/-- The trimming loop, with n bytes left: the first byte always stays. -/
def trimLength (buffer : List UInt8) : Nat → Nat
  | 0 => 0
  | 1 => 1
  | n + 2 => if isTrailing (buffer.getD (n + 1) 0) then trimLength buffer (n + 1) else n + 2

/-- What receive leaves in message, none when it returns false: nothing arrived,
or the datagram was empty. -/
def receive (arrived : Option (List UInt8)) : Option (List UInt8) :=
  let buffer := (arrived.getD []).take bufferSize
  let n := buffer.length
  if 0 < n then some (buffer.take (trimLength buffer n) ++ [0]) else none

theorem trimLength_pos (buffer : List UInt8) (n : Nat) : 0 < trimLength buffer (n + 1) := by
  induction n with
  | zero => simp [trimLength]
  | succ n ih =>
      rw [trimLength]
      split
      · exact ih
      · omega

theorem receive_length {arrived : Option (List UInt8)} {message : List UInt8}
    (h : receive arrived = some message) : 2 ≤ message.length := by
  simp only [receive] at h
  split at h
  · rename_i hpos
    obtain ⟨n, hn⟩ := Nat.exists_eq_add_one_of_ne_zero (Nat.ne_of_gt hpos)
    have ht := trimLength_pos ((arrived.getD []).take bufferSize) n
    cases h
    rw [List.length_append, List.length_take, List.length_singleton, hn]
    omega
  · cases h

end Cwsd.UdpServer

import Mathlib.Data.List.Basic

namespace Cwsd.CharPatterns

structure CharPattern where
  sentCharData : UInt16
  sentCharBits : UInt8
  character : UInt8
  deriving DecidableEq, Repr

/-- char_table, in the order of the source: a one bit is a dah, and the highest
of the sent_char_bits bits is keyed first. -/
def charTable : List CharPattern := [
  ⟨0b01, 2, 'A'.toUInt8⟩, ⟨0b1000, 4, 'B'.toUInt8⟩, ⟨0b1010, 4, 'C'.toUInt8⟩,
  ⟨0b100, 3, 'D'.toUInt8⟩, ⟨0b0, 1, 'E'.toUInt8⟩, ⟨0b0010, 4, 'F'.toUInt8⟩,
  ⟨0b110, 3, 'G'.toUInt8⟩, ⟨0b0000, 4, 'H'.toUInt8⟩, ⟨0b00, 2, 'I'.toUInt8⟩,
  ⟨0b0111, 4, 'J'.toUInt8⟩, ⟨0b101, 3, 'K'.toUInt8⟩, ⟨0b0100, 4, 'L'.toUInt8⟩,
  ⟨0b11, 2, 'M'.toUInt8⟩, ⟨0b10, 2, 'N'.toUInt8⟩, ⟨0b111, 3, 'O'.toUInt8⟩,
  ⟨0b0110, 4, 'P'.toUInt8⟩, ⟨0b1101, 4, 'Q'.toUInt8⟩, ⟨0b010, 3, 'R'.toUInt8⟩,
  ⟨0b000, 3, 'S'.toUInt8⟩, ⟨0b1, 1, 'T'.toUInt8⟩, ⟨0b001, 3, 'U'.toUInt8⟩,
  ⟨0b0001, 4, 'V'.toUInt8⟩, ⟨0b011, 3, 'W'.toUInt8⟩, ⟨0b1001, 4, 'X'.toUInt8⟩,
  ⟨0b1011, 4, 'Y'.toUInt8⟩, ⟨0b1100, 4, 'Z'.toUInt8⟩, ⟨0b11111, 5, '0'.toUInt8⟩,
  ⟨0b01111, 5, '1'.toUInt8⟩, ⟨0b00111, 5, '2'.toUInt8⟩, ⟨0b00011, 5, '3'.toUInt8⟩,
  ⟨0b00001, 5, '4'.toUInt8⟩, ⟨0b00000, 5, '5'.toUInt8⟩, ⟨0b10000, 5, '6'.toUInt8⟩,
  ⟨0b11000, 5, '7'.toUInt8⟩, ⟨0b11100, 5, '8'.toUInt8⟩, ⟨0b11110, 5, '9'.toUInt8⟩,
  ⟨0b001100, 6, '?'.toUInt8⟩, ⟨0b10010, 5, '/'.toUInt8⟩, ⟨0b110011, 6, ','.toUInt8⟩,
  ⟨0b010101, 6, '.'.toUInt8⟩, ⟨0b10001, 5, '='.toUInt8⟩, ⟨0b100001, 6, '-'.toUInt8⟩,
  ⟨0b011110, 6, 0x22⟩, ⟨0b10110, 5, 0x28⟩, ⟨0b101101, 6, 0x29⟩,
  ⟨0b000101, 6, '$'.toUInt8⟩, ⟨0b01010, 5, '+'.toUInt8⟩, ⟨0b1000101, 7, 0x5B⟩,
  ⟨0b01000, 5, 0x7B⟩, ⟨0b10110, 5, 0x7D⟩ ]

def getCharPattern (chr : UInt8) : Option CharPattern :=
  charTable.find? fun c => c.character == chr

def decodeChar (data nrOfBits : UInt8) : UInt8 :=
  match charTable.find? fun c => c.sentCharData == data.toUInt16 && c.sentCharBits == nrOfBits with
  | some c => c.character
  | none => '?'.toUInt8

theorem getCharPattern_bits {chr : UInt8} {p : CharPattern} (h : getCharPattern chr = some p) :
    0 < p.sentCharBits.toNat := by
  have hp := List.mem_of_find?_eq_some h
  have hall : ∀ p ∈ charTable, 0 < p.sentCharBits.toNat := by decide
  exact hall p hp

end Cwsd.CharPatterns

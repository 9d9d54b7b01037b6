/-!
# Numbers as bytes

`littleEndian` writes the low bytes of a natural number, the lowest first.
-/

namespace SynthRack

/-- The lowest `count` bytes of a number, the lowest first. -/
def littleEndian (count n : Nat) : List UInt8 :=
  (List.range count).map fun i => (n / Nat.pow 256 i).toUInt8

/-- As many bytes are written as are asked for. -/
theorem length_little_endian (count n : Nat) : (littleEndian count n).length = count := by
  simp [littleEndian]

end SynthRack

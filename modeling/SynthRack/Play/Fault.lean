/-!
# Faults of playing

A compiled rack that nobody edited never faults while it is played. A rack edited since its last
compilation can name a register or a buffer that its voice does not have, and a note can be too long
to be rendered into one array.
-/

namespace SynthRack

/-- Why playing stopped. -/
inductive Fault where
  /-- The rack has no registers yet. -/
  | notCompiled
  /-- A register was read that the voice does not have. -/
  | readOutOfRange (register : Option Nat) (size : Nat)
  /-- A register was written that the voice does not have. -/
  | writeOutOfRange (register : Option Nat) (size : Nat)
  /-- A buffer was used that the voice does not have. -/
  | bufferOutOfRange (buffer : Option Nat) (count : Nat)
  /-- More samples were asked for than an array can hold. -/
  | capacityOverflow
  deriving DecidableEq

namespace Fault

/-- The index shown for a register or buffer that was never allocated. -/
def unallocated : Nat := 4294967295

/-- An index as it is shown. -/
def indexText (index : Option Nat) : String := toString (index.getD unallocated)

/-- The text of a fault. -/
def message : Fault → String
  | notCompiled => "effect rack stepped before it was compiled"
  | readOutOfRange register size =>
    "register read " ++ indexText register ++ " out of range (len " ++ toString size ++ ")"
  | writeOutOfRange register size =>
    "register write " ++ indexText register ++ " out of range (len " ++ toString size ++ ")"
  | bufferOutOfRange buffer count =>
    "index out of bounds: the len is " ++ toString count ++ " but the index is " ++
      indexText buffer
  | capacityOverflow => "capacity overflow"

end Fault

end SynthRack

/-!
# Release

The version under which the library is released.
-/

namespace SynthRack

/-- The version of this library. -/
def version : String := "0.1.0"

end SynthRack

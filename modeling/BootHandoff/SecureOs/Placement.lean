/-
# Where the secure OS is copied to

A secure OS that is copied rather than loaded goes into the trusted carveout,
right behind the space that the secure monitor has at its bottom.  It has to
end within the carveout, and none of the sums on the way may leave the 64-bit
words.  The end of the carveout itself is only computed once the end of the
image is known to be an address.
-/

import BootHandoff.Error
import BootHandoff.Memory.MibRange

namespace BootHandoff
namespace SecureOs

open Memory

/-- The first address behind the space of the secure monitor, if it is one. -/
def base? (tz : MibRange) (monitorSizeMib : UInt64) : Option UInt64 := do
  Word.mul64? (← Word.add64? tz.base monitorSizeMib) mib

/-- The address for a secure OS of `len` bytes. -/
def placement (tz : MibRange) (monitorSizeMib len : UInt64) :
    Except (Stop BootError) UInt64 :=
  match base? tz monitorSizeMib with
  | none => fail (BootError.secureOsTooLarge len)
  | some address =>
    match Word.add64? address len with
    | none => fail (BootError.secureOsTooLarge len)
    | some stop => do
      let limit ← check tz.stopAddress
      if stop ≤ limit then return address else fail (BootError.secureOsTooLarge len)

end SecureOs
end BootHandoff

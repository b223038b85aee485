/-
# Reading and checking the root key

The root key lies in the flash area `GBB`, at the place that the area's header
names.  `read` hands it over, `verifyWith` checks that it hashes to a provisioned
digest; both find it in the same way and both refuse a header that points
outside its area.  A digest of zeros means that none was provisioned, and is
refused before the flash is touched.

The hash may be any function: the code compares what it makes of the key, and
does nothing else with it.
-/

import BootHandoff.Flash.Session
import BootHandoff.RootKey.Header

namespace BootHandoff
namespace RootKey

open Flash Platform

/-- Why there is no root key to be had. -/
inductive Error where
  /-- The flash map has no area `GBB`. -/
  | noArea
  | flash (e : FlashError)
  | badSignature
  /-- The header points outside the area. -/
  | outOfBounds (offset size : UInt32)
  /-- The key is larger than the buffer for it. -/
  | tooLarge (size : UInt32) (max : Nat)
  | hashMismatch
  /-- The digest to compare with is all zeros. -/
  | noExpectedDigest
  deriving DecidableEq, Repr

def Error.label : Error → String
  | .noArea => "NoArea"
  | .flash e => "Media." ++ e.label
  | .badSignature => "BadSignature"
  | .outOfBounds .. => "KeyOutOfBounds"
  | .tooLarge .. => "KeyTooLarge"
  | .hashMismatch => "HashMismatch"
  | .noExpectedDigest => "NoExpectedDigest"

def Error.message : Error → String
  | .noArea => "no GBB area in flash map"
  | .flash e => e.message
  | .badSignature => "GBB signature mismatch"
  | .outOfBounds offset size =>
    "root key " ++ Text.hex offset.toNat ++ "+" ++ Text.hex size.toNat ++ " outside the GBB"
  | .tooLarge size max => s!"root key of {size.toNat} bytes exceeds {max}"
  | .hashMismatch => "root key hash mismatch"
  | .noExpectedDigest => "no expected root key digest provisioned"

/-- The name of the block's area in the flash map. -/
def areaName : String := "GBB"

/-- The size of the header as a length on the flash. -/
def headerLen : UInt32 := UInt32.ofNat Header.layout.size

/-- The header at the front of the block's area. -/
def readHeader (area : Region) : Task Error Header := do
  let mapped ← accept Error.flash (← Firmware.mapFlash area.offset headerLen)
  match Header.layout.readFront? mapped with
  | some header => return header
  | none => fail (Error.flash (.invalidMap area.offset headerLen))

/-- Where on the flash the root key lies. -/
def locate : Task Error Region := do
  match ← Firmware.findArea areaName with
  | none => fail Error.noArea
  | some area =>
    let header ← readHeader area
    if header.signature = signature then
      match area.subrange? header.rootKey.offset header.rootKey.size with
      | some region => return region
      | none => fail (Error.outOfBounds header.rootKey.offset header.rootKey.size)
    else fail Error.badSignature

/-- Copies the root key to the front of the buffer at hand and returns its
size.  A key that does not fit is refused, never cut. -/
def read {n : Nat} : Action (Buffer n) Error Nat :=
  session Error.flash do
    let region ← locate
    if region.len.toNat ≤ n then
      let key ← accept Error.flash (← Firmware.mapFlash region.offset region.len)
      if key.length ≤ n then
        modify fun buf => buf.overwrite key
        return key.length
      else halt .indexOutOfBounds
    else fail (Error.tooLarge region.len n)

/-- Checks that `hash` makes `expected` of the root key. -/
def verifyWith (hash : Bytes → Buffer 32) (expected : Buffer 32) : Task Error Unit :=
  if expected = Buffer.zero 32 then fail Error.noExpectedDigest
  else session Error.flash do
    let region ← locate
    let key ← accept Error.flash (← Firmware.mapFlash region.offset region.len)
    if hash key = expected then
      Firmware.log .info "root key hash compare successful"
    else
      Firmware.log .error "root key hash compare failed"
      fail Error.hashMismatch

end RootKey
end BootHandoff

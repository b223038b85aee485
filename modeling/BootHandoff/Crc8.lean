/-
# Cyclic redundancy checks of eight bits

A check works on a register of one byte.  Each byte of data is added to the
register, which is then divided by the polynomial, one shift a bit.  An
algorithm that reflects its input reads the bits of every byte, and keeps its
register, the other way round; one that reflects its output turns the register
round at the end.
-/

import BootHandoff.Bytes.Basic

namespace BootHandoff
namespace Crc8

/-- The parameters of a check. -/
structure Algorithm where
  poly : UInt8
  /-- The register before any data. -/
  init : UInt8
  reflectIn : Bool
  reflectOut : Bool
  /-- What is added to the register at the end. -/
  xorOut : UInt8
  deriving DecidableEq, Repr, Inhabited

/-- The bits of a byte the other way round. -/
def reverse (b : UInt8) : UInt8 :=
  let b := ((b &&& 0x55) <<< 1) ||| ((b >>> 1) &&& 0x55)
  let b := ((b &&& 0x33) <<< 2) ||| ((b >>> 2) &&& 0x33)
  ((b &&& 0x0f) <<< 4) ||| ((b >>> 4) &&& 0x0f)

/-- One step of the division, highest bit first. -/
def shiftUp (poly r : UInt8) : UInt8 := (r <<< 1) ^^^ ((r >>> 7) * poly)

/-- One step of the division, lowest bit first. -/
def shiftDown (poly r : UInt8) : UInt8 := (r >>> 1) ^^^ ((r &&& 1) * poly)

namespace Algorithm

/-- The register before any data, as the algorithm keeps it. -/
def start (a : Algorithm) : UInt8 := if a.reflectIn then reverse a.init else a.init

/-- One step of the division, in the direction of the algorithm. -/
def shift (a : Algorithm) (r : UInt8) : UInt8 :=
  if a.reflectIn then shiftDown (reverse a.poly) r else shiftUp a.poly r

/-- The register after one more byte. -/
def step (a : Algorithm) (r b : UInt8) : UInt8 := Nat.repeat a.shift 8 (r ^^^ b)

/-- The register after more data. -/
def update (a : Algorithm) (r : UInt8) (data : Bytes) : UInt8 := data.foldl a.step r

/-- The check of the data that led to a register. -/
def finish (a : Algorithm) (r : UInt8) : UInt8 :=
  (if a.reflectIn != a.reflectOut then reverse r else r) ^^^ a.xorOut

/-- The check of some data. -/
def checksum (a : Algorithm) (data : Bytes) : UInt8 := a.finish (a.update a.start data)

end Algorithm

/-- The check of the system management bus. -/
def smbus : Algorithm := ⟨0x07, 0x00, false, false, 0x00⟩

end Crc8
end BootHandoff

/-
# Ranges of physical memory, in MiB

The memory controller reports its ranges in units of `2 ^ 20` bytes.  Turning
them into addresses can leave the 64-bit words, which is fatal.
-/

import BootHandoff.Outcome
import BootHandoff.Word

namespace BootHandoff
namespace Memory

/-- The bytes of one MiB. -/
def mib : UInt64 := 0x100000

/-- A range of physical memory, in MiB. -/
structure MibRange where
  base : UInt64
  size : UInt64
  deriving DecidableEq, Repr, Inhabited

/-- The first MiB behind a range. -/
def MibRange.stop (r : MibRange) : Except Halt UInt64 :=
  orOverflow (Word.add64? r.base r.size)

/-- The first address behind a range. -/
def MibRange.stopAddress (r : MibRange) : Except Halt UInt64 := do
  orOverflow (Word.mul64? (← r.stop) mib)

/-- The carveouts, numbered as the memory controller numbers them. -/
inductive Carveout where
  /-- Trusted memory: the secure monitor and the secure OS. -/
  | tz
  | sec
  | mts
  /-- Protected video memory. -/
  | vpr
  | gpu
  | nvdec
  /-- Memory of the security controller. -/
  | tsec
  deriving DecidableEq, Repr, Inhabited

namespace Carveout

/-- The number under which the memory controller knows a carveout. -/
def number : Carveout → UInt32
  | tz => 0
  | sec => 1
  | mts => 2
  | vpr => 3
  | gpu => 4
  | nvdec => 5
  | tsec => 6

/-- The name of a carveout. -/
def name : Carveout → String
  | tz => "Tz"
  | sec => "Sec"
  | mts => "Mts"
  | vpr => "Vpr"
  | gpu => "Gpu"
  | nvdec => "Nvdec"
  | tsec => "Tsec"

/-- Every carveout, in the order of the numbers. -/
def all : List Carveout := [tz, sec, mts, vpr, gpu, nvdec, tsec]

/-- The carveout with a given number. -/
def ofNumber? (n : Int) : Option Carveout := all.find? fun c => (c.number.toNat : Int) == n

end Carveout
end Memory
end BootHandoff

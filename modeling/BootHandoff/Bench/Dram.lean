/-
# A range of memory on the bench

A range of physical memory gives access to windows that lie wholly within it.
-/

import BootHandoff.Bench.Bank
import BootHandoff.Error
import BootHandoff.Outcome
import BootHandoff.Word

namespace BootHandoff
namespace Bench

/-- Physical memory from an address on. -/
structure Dram where
  base : UInt64
  bytes : Bank
  deriving Inhabited

namespace Dram

/-- Memory that holds zeros. -/
def zeroed (base : UInt64) (size : Nat) : Dram := ⟨base, Bank.blank size 0⟩

/-- Whether a range lies wholly within the memory. -/
def covers (d : Dram) (address : UInt64) (len : Nat) : Bool :=
  d.base ≤ address && (address.toNat - d.base.toNat) + len ≤ d.bytes.size

/-- What a range holds, wherever it lies. -/
def held (d : Dram) (address : UInt64) (len : Nat) : Bytes :=
  d.bytes.read (address.toNat - d.base.toNat) len

/-- Access to a range; the answer is what it holds. -/
def window (d : Dram) (address len : UInt64) : Except DriverError Bytes :=
  if d.covers address len.toNat then .ok (d.held address len.toNat)
  else .error (.window address len)

/-- The memory with new contents from an address on. -/
def store (d : Dram) (address : UInt64) (bs : Bytes) : Dram :=
  { d with bytes := d.bytes.write (address.toNat - d.base.toNat) bs }

/-- What a range holds that has to lie within the memory. -/
def «at» (d : Dram) (address len : UInt64) : Except Halt Bytes := do
  let start ← orOverflow (Word.sub64? address d.base)
  let stop ← orOverflow (Word.add64? start len)
  if stop.toNat ≤ d.bytes.size then return d.held address len.toNat
  else .error .indexOutOfBounds

end Dram
end Bench
end BootHandoff

/-
# The parts around the processor, on the bench

Registers that read back what was written to them, drivers that answer from a
table, product data, a processor that records what it is asked to do, and board
code that follows a script.
-/

import BootHandoff.Platform.Query
import BootHandoff.ProductData.Entries
import BootHandoff.Word
import BootHandoff.Outcome

namespace BootHandoff
namespace Bench

open Memory Platform

/-- Registers that read back what was last written, and zero before that.  The
writes are kept, the latest first. -/
structure Registers where
  writes : List (UInt64 × UInt32)
  deriving Repr, Inhabited

namespace Registers

/-- The value of a register. -/
def read (r : Registers) (address : UInt64) : UInt32 := (r.writes.lookup address).getD 0

/-- The registers after a write. -/
def write (r : Registers) (address : UInt64) (value : UInt32) : Registers :=
  ⟨(address, value) :: r.writes⟩

/-- The values written to one register, in their order. -/
def writesTo (r : Registers) (address : UInt64) : List UInt32 :=
  (r.writes.reverse.filter (·.1 == address)).map Prod.snd

end Registers

/-- The drivers for memory geometry.  Of the carveouts, only two have an
answer. -/
structure Soc where
  below4G : Except DriverError MibRange
  above4G : Except DriverError (Option MibRange)
  tz : Except DriverError MibRange
  tsec : Except DriverError MibRange
  developerMode : Bool

namespace Soc

/-- A small board: 2 GiB of memory at 2 GiB, 1 GiB above 4 GiB, and a trusted
carveout of 4 MiB at 1 GiB. -/
def small : Soc where
  below4G := .ok ⟨2048, 2048⟩
  above4G := .ok (some ⟨4096, 1024⟩)
  tz := .ok ⟨1024, 4⟩
  tsec := .ok ⟨3000, 2⟩
  developerMode := false

/-- The error of a carveout that has no answer. -/
def unavailable (which : Carveout) : DriverError := .carveout which.number

/-- The answer for a carveout. -/
def carveout (s : Soc) : Carveout → Except DriverError MibRange
  | .tz => s.tz
  | .tsec => s.tsec
  | which => .error (unavailable which)

end Soc

/-- Product data that is given as a list or as a blob. -/
inductive DataStore where
  | entries (pairs : List (String × Bytes))
  | blob (bytes : Bytes)
  deriving Repr

/-- The value of a key, that of the first entry with it. -/
def DataStore.find? (store : DataStore) (key : String) : Option Bytes :=
  match store with
  | .entries pairs => pairs.lookup key
  | .blob bytes => ProductData.find? bytes key

/-- What the processor was asked to do. -/
inductive CpuEvent where
  | clean (address len : UInt64)
  | mmuOff
  | enter (entry params platformParams : UInt64)
  deriving DecidableEq, Repr

/-- Whether a range lies within one cleaned range.  The ranges are looked at in
their order, and the end of each has to be an address until one is found. -/
def cleaned (address len : UInt64) : List CpuEvent → Except Halt Bool
  | [] => .ok false
  | .clean a l :: rest => do
    if a ≤ address then
      let stop ← orOverflow (Word.add64? address len)
      if stop ≤ (← orOverflow (Word.add64? a l)) then return true else cleaned address len rest
    else cleaned address len rest
  | _ :: rest => cleaned address len rest

/-- Board code that makes the same changes every time. -/
structure BoardCode where
  pc : Option UInt64
  spsr : Option UInt32
  /-- The first argument registers. -/
  args : List UInt64
  /-- The error that it ends with after its changes. -/
  failure : Option BootError
  /-- The addresses of descriptions of the three images. -/
  images : Option (UInt64 × UInt64 × UInt64)
  platformParams : Option UInt64
  deriving Inhabited

namespace BoardCode

/-- The registers with the first of them given. -/
def setArgs (given : List UInt64) (a : Abi.ArgRegs) : Abi.ArgRegs where
  x0 := given.getD 0 a.x0
  x1 := given.getD 1 a.x1
  x2 := given.getD 2 a.x2
  x3 := given.getD 3 a.x3
  x4 := given.getD 4 a.x4
  x5 := given.getD 5 a.x5
  x6 := given.getD 6 a.x6
  x7 := given.getD 7 a.x7

/-- What it makes of the entry point of the secure OS. -/
def adjust (c : BoardCode) (entry : Abi.EntryPoint) : Except BootError Unit × Abi.EntryPoint :=
  ((c.failure.map Except.error).getD (.ok ()), { entry with
    pc := c.pc.getD entry.pc
    spsr := c.spsr.getD entry.spsr
    args := setArgs c.args entry.args })

/-- What it makes of the parameters of the secure monitor. -/
def extend (c : BoardCode) (params : Abi.MonitorParams) : Option UInt64 × Abi.MonitorParams :=
  (c.platformParams, match c.images with
    | some (monitor, secureOs, payload) => { params with
        monitorImage := monitor, secureOsImage := secureOs, payloadImage := payload }
    | none => params)

end BoardCode
end Bench
end BootHandoff

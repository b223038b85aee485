/-
# Entry points

An entry point tells the secure monitor where to enter an image, with which
saved program status, and with which eight argument registers.

| bytes | field |
| --- | --- |
| 0-7 | header |
| 8-15 | program counter |
| 16-19 | saved program status |
| 20-23 | padding |
| 24-87 | argument registers `x0` to `x7` |
-/

import BootHandoff.Abi.Header

namespace BootHandoff
namespace Abi

/-- The argument registers that an image finds when it is entered. -/
structure ArgRegs where
  x0 : UInt64
  x1 : UInt64
  x2 : UInt64
  x3 : UInt64
  x4 : UInt64
  x5 : UInt64
  x6 : UInt64
  x7 : UInt64
  deriving DecidableEq, Repr, Inhabited

namespace ArgRegs

/-- Every register holds the same word. -/
def fill (w : UInt64) : ArgRegs := ⟨w, w, w, w, w, w, w, w⟩

/-- Every register holds zero. -/
def zero : ArgRegs := fill 0

/-- The registers in their order. -/
def toList (a : ArgRegs) : List UInt64 := [a.x0, a.x1, a.x2, a.x3, a.x4, a.x5, a.x6, a.x7]

/-- How the registers lie in memory. -/
def layout : Layout ArgRegs :=
  let L := Layout.u64
  (L.pair (L.pair (L.pair (L.pair (L.pair (L.pair (L.pair L))))))).iso
    (fun (x0, x1, x2, x3, x4, x5, x6, x7) => ⟨x0, x1, x2, x3, x4, x5, x6, x7⟩)
    (fun a => (a.x0, a.x1, a.x2, a.x3, a.x4, a.x5, a.x6, a.x7))

end ArgRegs

/-- Where and how an image is entered. -/
structure EntryPoint where
  header : ParamHeader
  pc : UInt64
  /-- The saved program status for the exception return into the image. -/
  spsr : UInt32
  padding : UInt32
  args : ArgRegs
  deriving DecidableEq, Repr, Inhabited

namespace EntryPoint

/-- How an entry point lies in memory. -/
def layout : Layout EntryPoint :=
  (ParamHeader.layout.pair (Layout.u64.pair (Layout.u32.pair (Layout.u32.pair ArgRegs.layout)))).iso
    (fun (header, pc, spsr, padding, args) => ⟨header, pc, spsr, padding, args⟩)
    (fun e => (e.header, e.pc, e.spsr, e.padding, e.args))

/-- The entry point with every bit clear: no image at all. -/
def zero : EntryPoint := ⟨.zero, 0, 0, 0, .zero⟩

/-- The entry point of an image in the world that `attributes` name, with
every argument register zero. -/
def entering (attributes : UInt32) (pc : UInt64) (spsr : UInt32) : EntryPoint :=
  ⟨.describing layout .entryPoint version1 attributes, pc, spsr, 0, .zero⟩

end EntryPoint
end Abi
end BootHandoff

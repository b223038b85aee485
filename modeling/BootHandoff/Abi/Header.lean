/-
# The header of a parameter structure

Every structure that one firmware stage hands to the next starts with the same
eight bytes: the kind of structure, the version of its layout, its size, and a
word of attributes.

| bytes | field |
| --- | --- |
| 0 | kind |
| 1 | version |
| 2-3 | size of the whole structure |
| 4-7 | attributes |
-/

import BootHandoff.Layout

namespace BootHandoff
namespace Abi

/-- The kinds of parameter structure. -/
inductive ParamKind where
  /-- Where and how an image is entered. -/
  | entryPoint
  /-- Where an image lies in memory. -/
  | imageBinary
  /-- What the secure monitor receives. -/
  | monitor
  deriving DecidableEq, Repr, Inhabited

namespace ParamKind

/-- The byte that stands for a kind. -/
def code : ParamKind → UInt8
  | entryPoint => 1
  | imageBinary => 2
  | monitor => 3

/-- The name of a kind. -/
def name : ParamKind → String
  | entryPoint => "EntryPoint"
  | imageBinary => "ImageBinary"
  | monitor => "Bl31"

/-- Every kind, in the order of the codes. -/
def all : List ParamKind := [entryPoint, imageBinary, monitor]

/-- The kind with a given code. -/
def ofCode? (n : Int) : Option ParamKind := all.find? fun k => (k.code.toNat : Int) == n

end ParamKind

/-- The version of the layouts in use. -/
def version1 : UInt8 := 1

/-- The attributes of an image that runs in the secure world. -/
def secureWorld : UInt32 := 0

/-- The attributes of an image that runs in the normal world. -/
def normalWorld : UInt32 := 1

/-- The eight bytes in front of every parameter structure. -/
structure ParamHeader where
  kindCode : UInt8
  version : UInt8
  size : UInt16
  attributes : UInt32
  deriving DecidableEq, Repr, Inhabited

namespace ParamHeader

/-- The header with every bit clear. -/
def zero : ParamHeader := ⟨0, 0, 0, 0⟩

/-- The header of a structure with layout `L`. -/
def describing {α : Type} (L : Layout α) (kind : ParamKind) (version : UInt8)
    (attributes : UInt32) : ParamHeader :=
  ⟨kind.code, version, UInt16.ofNat L.size, attributes⟩

/-- The kind that a header names, if it is one. -/
def kind? (h : ParamHeader) : Option ParamKind := ParamKind.ofCode? h.kindCode.toNat

/-- How a header lies in memory. -/
def layout : Layout ParamHeader :=
  (Layout.u8.pair (Layout.u8.pair (Layout.u16.pair Layout.u32))).iso
    (fun (kindCode, version, size, attributes) => ⟨kindCode, version, size, attributes⟩)
    (fun h => (h.kindCode, h.version, h.size, h.attributes))

end ParamHeader
end Abi
end BootHandoff
